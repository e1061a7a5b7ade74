import Mathlib
import Dataflow.Proofs.Pool.Passages

/-!
# No wake-up is lost

A signal is made after the critical section that calls for it, so when a sleeper is woken, the
slot or the value that the signal was for may be gone, and while signals are on their way,
sleepers sleep on although they could go on. What can be said at any moment is
`Monitor.Owed`: as long as anybody sleeps on a condition, all sleepers are about to be woken,
or there are no more free slots (stored values) than there are signals to one sleeper that are
still to be made and threads woken by one that have not yet gone on. Once nothing of this kind
is left under way, nobody sleeps without need, `Monitor.Recorded.sleeps_for_cause`.

The count is what one passage may change by one on either side: a value that is stored takes
a slot, which at most the thread itself was counted for, and adds a signal for the value.
-/

namespace Dataflow

variable {α : Type}

/-! ### What is on its way to the sleepers -/

/-- For how many of those who wait for the condition there is something. -/
def Pool.supply (p : Pool α) : Condition → Nat
  | .notFull => p.capacity - p.entries.length
  | .notEmpty => p.entries.length

namespace PoolThread

/-- The signals to one sleeper that a thread is still to make, or has been given. -/
def credit (d : Condition) : PoolThread α → Nat
  | signalling l _ => l.count ⟨d, false⟩
  | woken c => if c.awaits? = some d then 1 else 0
  | _ => 0

/-- One signal is to be made. -/
theorem credit_one (e d : Condition) (r : PoolReply α) :
    (signalling [⟨e, false⟩] r).credit d = if e = d then 1 else 0 := by
  cases e <;> cases d <;> rfl

/-- A signal counts until it is made. -/
theorem credit_cons (d : Condition) (s : Signal) (l : List Signal) (r : PoolReply α) :
    (signalling (s :: l) r).credit d =
      (signalling l r).credit d + if s = ⟨d, false⟩ then 1 else 0 := by
  simp only [credit, List.count_cons, beq_iff_eq]

theorem credit_of_proper {d : Condition} {c : PoolCall α} (h : c.awaits? = some d) :
    (woken c).credit d = 1 := if_pos h

end PoolThread

namespace Monitor

/-- A measure of the threads, added up. -/
def total (m : Monitor α) (f : PoolThread α → Nat) : Nat :=
  (m.threads.toList.map f).sum

/-- Somebody sleeps on the condition. -/
def Sleeper (m : Monitor α) (d : Condition) : Prop :=
  ∃ (i : Nat) (c : PoolCall α), m.threads[i]? = some (.asleep d c)

/-- A signal to all who sleep on the condition is still to be made. -/
def Broadcast (m : Monitor α) (d : Condition) : Prop :=
  ∃ (i : Nat) (l : List Signal) (r : PoolReply α),
    m.threads[i]? = some (.signalling l r) ∧ ⟨d, true⟩ ∈ l

/-- **What is owed to those who sleep on a condition.** -/
def Owed (m : Monitor α) (d : Condition) : Prop :=
  m.Sleeper d → m.Broadcast d ∨
    m.pool.isClosed = false ∧ m.pool.supply d ≤ m.total (PoolThread.credit d)

/-! ### One thread changes -/

theorem sum_set {β : Type} (f : β → Nat) {l : List β} {i : Nat} {x : β} (h : l[i]? = some x)
    (y : β) : ((l.set i y).map f).sum + f x = (l.map f).sum + f y := by
  induction l generalizing i with
  | nil => cases h
  | cons b l ih =>
    cases i with
    | zero =>
      obtain rfl := Option.some.inj h
      simp only [List.set_cons_zero, List.map_cons, List.sum_cons]
      omega
    | succ i =>
      have := ih (i := i) h
      simp only [List.set_cons_succ, List.map_cons, List.sum_cons]
      omega

/-- The measure of a thread goes out of the total, and what it has become comes in. -/
theorem total_set (m : Monitor α) (f : PoolThread α → Nat) {i : Nat} {t : PoolThread α}
    (h : m.threads[i]? = some t) (t' : PoolThread α) :
    total { m with threads := m.threads.setIfInBounds i t' } f + f t = m.total f + f t' := by
  have h' : m.threads.toList[i]? = some t := by rwa [Array.getElem?_toList]
  simpa only [total, Array.toList_setIfInBounds] using sum_set f h' t'

theorem total_pass (m : Monitor α) (f : PoolThread α → Nat) {i : Nat} {t : PoolThread α}
    (h : m.threads[i]? = some t) (c : PoolCall α) (first : Bool) :
    (m.pass i c first).total f + f t =
      m.total f + f (.ofSection c (c.enter first m.pool)) :=
  total_set m f h _

theorem total_call (m : Monitor α) (f : PoolThread α → Nat) (c : PoolCall α) :
    (m.call c).total f = m.total f + f (.entering c) := by
  simp [total, call]

theorem total_map (a : Array (PoolThread α)) (p : Pool α) (g : PoolThread α → PoolThread α)
    (f : PoolThread α → Nat) : total ⟨p, a.map g⟩ f = total ⟨p, a⟩ fun t => f (g t) := by
  simp only [total, Array.toList_map, List.map_map, Function.comp_def]

theorem total_le (m : Monitor α) {f f' : PoolThread α → Nat} (h : ∀ t, f t ≤ f' t) :
    m.total f ≤ m.total f' :=
  List.sum_le_sum fun t _ => h t

/-! ### Outside critical sections -/

variable {m m' : Monitor α} {d : Condition} {i : Nat}

/-- Nobody falls asleep outside a critical section. -/
theorem Move.sleeper (h : m.Move i m' none) (hs : m'.Sleeper d) : m.Sleeper d := by
  obtain ⟨j, c, hj⟩ := hs
  obtain ⟨t, ht, hturn⟩ := h.turn hj
  cases hturn
  exact ⟨j, c, ht⟩

/-- A signal to all is made to all. -/
theorem Move.broadcast (h : m.Move i m' none) (hs : m'.Sleeper d) (hb : m.Broadcast d) :
    m'.Broadcast d := by
  obtain ⟨k, l, r, hk, hl⟩ := hb
  -- who is not the thread that moves, nor asleep, stays as it is
  have hkeep : ∀ {t t' : PoolThread α}, m.threads[i]? = some t → k ≠ i →
      (m.threads.setIfInBounds i t')[k]? = some (.signalling l r) :=
    fun _ hki => (Array.getElem?_setIfInBounds_ne hki.symm).trans hk
  have hown : ∀ {t : PoolThread α}, m.threads[i]? = some t → k = i → t = .signalling l r := by
    rintro t ht rfl
    exact Option.some.inj (ht.symm.trans hk)
  have hnext : ∀ {s : Signal} {l' : List Signal} {r' : PoolReply α},
      m.threads[i]? = some (.signalling (s :: l') r') → s ≠ ⟨d, true⟩ →
      ∃ l r, (m.threads.setIfInBounds i (.signalling l' r'))[k]? = some (.signalling l r) ∧
        ⟨d, true⟩ ∈ l := by
    intro s l' r' ht hne
    by_cases hki : k = i
    · obtain ⟨rfl, rfl⟩ := PoolThread.signalling.inj (hown ht hki)
      refine ⟨l', r', ?_, (List.mem_cons.mp hl).resolve_left hne.symm⟩
      rw [hki, Array.getElem?_setIfInBounds_self, if_pos (Array.getElem?_eq_some_iff.mp ht).1]
    · exact ⟨l, r, hkeep ht hki, hl⟩
  cases h with
  | wake ht => exact ⟨k, l, r, hkeep ht (fun hki => nomatch hown ht hki), hl⟩
  | finish ht =>
    refine ⟨k, l, r, hkeep ht fun hki => ?_, hl⟩
    obtain ⟨rfl, -⟩ := PoolThread.signalling.inj (hown ht hki)
    cases hl
  | @signalAll s l' r' ht hall =>
    obtain ⟨j, c, hj⟩ := hs
    rw [Array.getElem?_map] at hj
    obtain ⟨t, -, ht'⟩ := Option.map_eq_some_iff.mp hj
    have hne : s ≠ ⟨d, true⟩ := by
      rintro rfl
      cases t with
      | asleep d' c' => by_cases hd : d = d' <;> simp_all [PoolThread.sleepsOn, PoolThread.rouse]
      | _ => cases ht'
    obtain ⟨l, r, hkl, hl⟩ := hnext ht hne
    refine ⟨k, l, r, ?_, hl⟩
    rw [Array.getElem?_map, hkl]
    rfl
  | @signalNone s l' r' ht hone hnone =>
    exact ⟨k, hnext ht (by rintro rfl; cases hone)⟩
  | @signalOne s l' r' j c ht hone hj =>
    obtain ⟨l, r, hkl, hl⟩ := hnext ht (by rintro rfl; cases hone)
    refine ⟨k, l, r, ?_, hl⟩
    have hjk : j ≠ k := by
      rintro rfl
      rw [hk] at hj
      cases hj
    rw [Array.getElem?_setIfInBounds_ne hjk]
    exact hkl

/-- A signal to one is given to one. -/
theorem Move.credit_le (h : m.Move i m' none) (hs : m'.Sleeper d)
    (hp : ∀ {j : Nat} {t : PoolThread α}, m.threads[j]? = some t → t.Proper) :
    m.total (PoolThread.credit d) ≤ m'.total (PoolThread.credit d) := by
  have hsleep := h.sleeper hs
  cases h with
  | @wake d' c ht =>
    have := m.total_set (PoolThread.credit d) ht (.woken c)
    simp only [PoolThread.credit] at this
    omega
  | @finish r ht =>
    have := m.total_set (PoolThread.credit d) ht (.done r)
    simp only [PoolThread.credit, List.count_nil] at this
    omega
  | @signalAll s l r ht hall =>
    have hne : s ≠ ⟨d, false⟩ := by
      rintro rfl
      cases hall
    have hset := m.total_set (PoolThread.credit d) ht (.signalling l r)
    rw [PoolThread.credit_cons, if_neg hne, Nat.add_zero] at hset
    rw [total_map, ← Nat.add_right_cancel hset]
    refine total_le _ fun t => ?_
    split
    · next hsleeps =>
      obtain ⟨c, rfl⟩ := asleep_of_sleepsOn hsleeps
      exact Nat.zero_le _
    · exact Nat.le_refl _
  | @signalNone s l r ht hone hnone =>
    have hne : s ≠ ⟨d, false⟩ := by
      rintro rfl
      obtain ⟨j, c, hj⟩ := hsleep
      have := hnone _ (Array.mem_of_getElem? hj)
      simp [PoolThread.sleepsOn] at this
    have hset := m.total_set (PoolThread.credit d) ht (.signalling l r)
    rw [PoolThread.credit_cons, if_neg hne] at hset
    omega
  | @signalOne s l r j c ht hone hj =>
    have hij : i ≠ j := by
      rintro rfl
      rw [ht] at hj
      cases hj
    have hset := m.total_set (PoolThread.credit d) ht (.signalling l r)
    have hwake := total_set { m with threads := m.threads.setIfInBounds i (.signalling l r) }
      (PoolThread.credit d) ((Array.getElem?_setIfInBounds_ne hij).trans hj) (.woken c)
    dsimp only at hwake
    rw [PoolThread.credit_cons] at hset
    rw [show (PoolThread.asleep s.condition c).credit d = 0 from rfl] at hwake
    by_cases hs : s = ⟨d, false⟩
    · subst hs
      rw [PoolThread.credit_of_proper (hp hj)] at hwake
      rw [if_pos rfl] at hset
      omega
    · rw [if_neg hs] at hset
      omega

/-- Outside critical sections nothing is lost. -/
theorem Owed.move (h : m.Owed d) (hm : m.Move i m' none)
    (hp : ∀ {j : Nat} {t : PoolThread α}, m.threads[j]? = some t → t.Proper) : m'.Owed d := by
  intro hs
  rcases h (hm.sleeper hs) with hb | ⟨hopen, hle⟩
  · exact Or.inl (hm.broadcast hs hb)
  · rw [hm.pool_eq]
    exact Or.inr ⟨hopen, hle.trans (hm.credit_le hs hp)⟩

/-! ### In critical sections -/

/-- What a thread takes out of the count when it passes a critical section. -/
theorem credit_le_one {t : PoolThread α} {c : PoolCall α} (hc : t.call? = some c) :
    t.credit d ≤ 1 ∧ (c.awaits? ≠ some d → t.credit d = 0) := by
  cases t with
  | woken c' =>
    obtain rfl := Option.some.inj hc
    by_cases hd : c'.awaits? = some d
    · exact ⟨(PoolThread.credit_of_proper hd).le, fun h => absurd hd h⟩
    · have hzero : (PoolThread.woken c').credit d = 0 := if_neg hd
      exact ⟨hzero.le.trans (Nat.zero_le 1), fun _ => hzero⟩
  | entering | asleep => exact ⟨Nat.zero_le 1, fun _ => rfl⟩
  | signalling | done => cases hc

/-- Only who brings a value waits for a slot. -/
theorem awaits_of_value {c : PoolCall α} {x : Tagged α} (h : c.value? = some x) :
    c.awaits? ≠ some .notEmpty := by
  cases c <;> simp_all [PoolCall.value?, PoolCall.awaits?]

theorem awaits_of_no_value {c : PoolCall α} (h : c.value? = none) :
    c.awaits? ≠ some .notFull := by
  cases c <;> simp_all [PoolCall.value?, PoolCall.awaits?]

/-- A pool that refuses a value although it is open has no free slot. -/
theorem supply_of_refused {p : Pool α} {r : Refusal} (hr : p.view.refusal? = some r)
    (ho : p.isClosed = false) : p.supply .notFull = 0 := by
  unfold Fifo.refusal? at hr
  unfold Pool.supply
  split at hr
  · next hz =>
    have hz : p.capacity = 0 := hz
    rw [hz, Nat.zero_sub]
  split at hr
  · next hc =>
    have hc : p.isClosed = true := hc
    rw [ho] at hc
    cases hc
  split at hr
  · next hf =>
    have hf : p.entries.length = p.capacity := hf
    rw [hf, Nat.sub_self]
  · cases hr

/-- **What is under way after a passage suffices, if it did before.** -/
theorem supply_le_pass {c : PoolCall α} {first : Bool} {p : Pool α} {s : Section α}
    (h : c.Comes first p s) {t : PoolThread α} (hc : t.call? = some c) (ho : p.isClosed = false)
    {k k' : Nat} (hk : k' + t.credit d = k + (PoolThread.ofSection c s).credit d)
    (hle : p.supply d ≤ k) (hs : s.pool.isClosed = false) : s.pool.supply d ≤ k' := by
  obtain ⟨hone, hzero⟩ := credit_le_one (d := d) hc
  cases h with
  | @stored x p' hx hroom hv =>
    have hlen : p'.entries.length = p.entries.length + 1 := by
      rw [show p'.entries = p.entries ++ [x] from congrArg Fifo.values hv, List.length_append]
      rfl
    have hcap : p'.capacity = p.capacity := congrArg Fifo.capacity hv
    rw [PoolThread.ofSection, PoolThread.credit_one] at hk
    cases d with
    | notFull =>
      simp only [reduceCtorEq, if_false, Pool.supply, Section.pool] at hk hle ⊢
      omega
    | notEmpty =>
      have := hzero (awaits_of_value hx)
      simp only [if_true, Pool.supply, Section.pool] at hk hle ⊢
      omega
  | @refused x r hx hr hc' =>
    have hk : k' + t.credit d = k := hk
    cases d with
    | notFull =>
      have := supply_of_refused hr ho
      simp only [Section.pool]
      omega
    | notEmpty =>
      have := hzero (awaits_of_value hx)
      simp only [Section.pool]
      omega
  | @crowded x hc' hr =>
    have hk : k' + t.credit d = k := hk
    have hsame : (if first then p.countStarved else p).supply d = p.supply d := by
      cases first <;> rfl
    simp only [Section.pool, hsame]
    cases d with
    | notFull =>
      rw [supply_of_refused hr ho]
      exact Nat.zero_le _
    | notEmpty =>
      have := hzero (awaits_of_value (x := x) (hc' ▸ rfl))
      omega
  | @taken x p' hc' hx hv =>
    have hlen : p'.entries.length = p.entries.length - 1 := by
      rw [show p'.entries = p.entries.eraseP c.wants from congrArg Fifo.values hv]
      exact List.length_eraseP_of_mem (List.mem_of_find?_eq_some hx) (List.find?_some hx)
    have hcap : p'.capacity = p.capacity := congrArg Fifo.capacity hv
    have hle' := p.length_entries_le
    rw [PoolThread.ofSection, PoolThread.credit_one] at hk
    cases d with
    | notFull =>
      have := hzero (awaits_of_no_value hc')
      simp only [if_true, Pool.supply, Section.pool] at hk hle ⊢
      omega
    | notEmpty =>
      simp only [reduceCtorEq, if_false, Pool.supply, Section.pool] at hk hle ⊢
      omega
  | missed hc' hx ho' =>
    have hk : k' + t.credit d = k := hk
    have hnone : c.awaits? = none := ho'.resolve_right (by simp [ho])
    have := hzero (hnone ▸ (Option.some_ne_none d).symm)
    simp only [Section.pool]
    omega
  | barren hc' he =>
    have hk : k' + t.credit d = k := hk
    simp only [Section.pool]
    cases d with
    | notFull =>
      have := hzero (awaits_of_no_value (hc' ▸ rfl))
      omega
    | notEmpty =>
      rw [Pool.supply, he]
      exact Nat.zero_le _
  | closes => cases hs

/-- Who is refused for want of a slot finds the pool open. -/
theorem open_of_full {p : Pool α} (hr : p.view.refusal? = some .full) : p.isClosed = false := by
  rw [← Bool.not_eq_true]
  intro hclosed
  have hclosed : p.view.isClosed = true := hclosed
  rw [Fifo.refusal?, hclosed] at hr
  split at hr <;> cases hr

/-- Who falls asleep finds the pool open and nothing there for him. -/
theorem needy_of_asleep {c c' : PoolCall α} {first : Bool} {p : Pool α} {s : Section α}
    (h : c.Comes first p s) (hs : PoolThread.ofSection c s = .asleep d c') :
    s.pool.isClosed = false ∧ s.pool.supply d = 0 := by
  cases h with
  | @crowded x hc hr =>
    obtain ⟨rfl, -⟩ := PoolThread.asleep.inj hs
    have hopen := open_of_full hr
    have hzero := supply_of_refused hr hopen
    cases first <;> exact ⟨hopen, hzero⟩
  | barren hc he ho =>
    obtain ⟨rfl, -⟩ := PoolThread.asleep.inj hs
    exact ⟨ho, by rw [Section.pool, Pool.supply, he, List.length_nil]⟩
  | stored | refused | taken | missed | closes => cases hs

/-- Only closing closes a pool, and then all sleepers are to be woken. -/
theorem broadcast_of_closed {c : PoolCall α} {first : Bool} {p : Pool α} {s : Section α}
    (h : c.Comes first p s) (ho : p.isClosed = false) (hs : s.pool.isClosed = true)
    (d : Condition) : ∃ l r, PoolThread.ofSection c s = .signalling l r ∧ ⟨d, true⟩ ∈ l := by
  cases h with
  | closes => exact ⟨_, _, rfl, by cases d <;> simp⟩
  | stored _ _ hv | taken _ _ hv =>
    have hsame := congrArg Fifo.isClosed hv
    exact absurd (hsame.symm.trans hs) (by simp [show p.view.isClosed = false from ho])
  | refused | missed | barren => exact absurd hs (by simp [Section.pool, ho])
  | crowded => cases first <;> exact absurd hs (by simp [Section.pool, ho, Pool.countStarved])

/-- Nothing is lost in a critical section. -/
theorem Owed.pass (h : m.Owed d) {c : PoolCall α} {first : Bool} {t : PoolThread α}
    (ht : m.threads[i]? = some t) (hc : t.call? = some c) : (m.pass i c first).Owed d := by
  have hcomes := c.enter_comes first m.pool
  have hself := m.getElem?_pass_self c first (Array.getElem?_eq_some_iff.mp ht).1
  rintro ⟨j, c', hj⟩
  by_cases hji : j = i
  · subst hji
    obtain ⟨hopen, hzero⟩ := needy_of_asleep hcomes (Option.some.inj (hself.symm.trans hj))
    exact Or.inr ⟨hopen, hzero.le.trans (Nat.zero_le _)⟩
  rw [m.getElem?_pass_ne c first hji] at hj
  rcases h ⟨j, c', hj⟩ with ⟨k, l, r, hk, hl⟩ | ⟨hopen, hle⟩
  · have hki : k ≠ i := by
      rintro rfl
      obtain rfl := Option.some.inj (ht.symm.trans hk)
      cases hc
    exact Or.inl ⟨k, l, r, (m.getElem?_pass_ne c first hki).trans hk, hl⟩
  cases hs : (c.enter first m.pool).pool.isClosed with
  | true =>
    obtain ⟨l, r, hlr, hl⟩ := broadcast_of_closed hcomes hopen hs d
    exact Or.inl ⟨i, l, r, hlr ▸ hself, hl⟩
  | false =>
    have htotal := m.total_pass (PoolThread.credit d) ht c first
    exact Or.inr ⟨hs, supply_le_pass hcomes hc hopen htotal hle hs⟩

/-! ### Every run -/

variable {n : Nat} {calls : List (PoolCall α)} {H : List (Passage α)}

/-- A new call owes nobody anything. -/
theorem Owed.call (h : m.Owed d) (c : PoolCall α) : (m.call c).Owed d := by
  have hold : ∀ {j : Nat} {t : PoolThread α}, m.threads[j]? = some t →
      (m.call c).threads[j]? = some t := by
    intro j t ht
    have hne := Nat.ne_of_lt (Array.getElem?_eq_some_iff.mp ht).1
    rw [Monitor.call, Array.getElem?_push, if_neg hne, ht]
  rintro ⟨j, c', hj⟩
  have hsleep : m.threads[j]? = some (.asleep d c') := by
    simp only [Monitor.call, Array.getElem?_push] at hj
    split at hj
    · cases hj
    · exact hj
  rcases h ⟨j, c', hsleep⟩ with ⟨k, l, r, hk, hl⟩ | ⟨hopen, hle⟩
  · exact Or.inl ⟨k, l, r, hold hk, hl⟩
  · refine Or.inr ⟨hopen, ?_⟩
    rw [m.total_call (PoolThread.credit d) c]
    exact hle

theorem Recorded.owed (h : Recorded n m calls H) (d : Condition) : m.Owed d := by
  induction h with
  | start =>
    rintro ⟨j, c, hj⟩
    cases hj
  | call _ c ih => exact ih.call c
  | @step m m' calls H h i target hs ih =>
    have hm := move_of_advance hs
    generalize m.passage? i = P at hm
    cases P with
    | none => exact ih.move hm h.kept.proper
    | some p =>
      cases hm with
      | enter ht => exact ih.pass ht rfl
      | resume ht => exact ih.pass ht rfl

/-- The thread still has a signal to make, or was woken and has not gone on yet. -/
def UnderWay : PoolThread α → Prop
  | .woken _ => True
  | .signalling (_ :: _) _ => True
  | _ => False

/-- Nothing is under way. -/
def Settled (m : Monitor α) : Prop :=
  ∀ (i : Nat) (t : PoolThread α), m.threads[i]? = some t → ¬ UnderWay t

/-- **Nobody sleeps without need**: once nothing is under way, a thread that sleeps is a
producer for whom no slot is free, or a consumer for whom no value is stored, and the pool is
open. -/
theorem Recorded.sleeps_for_cause (h : Recorded n m calls H) (hm : m.Settled) {c : PoolCall α}
    (ht : m.threads[i]? = some (.asleep d c)) : m.pool.isClosed = false ∧
      ((∃ x, c = .push x) ∧ m.pool.numFree = 0 ∨ c = .pop ∧ m.pool.entries = []) := by
  have hcredit : m.total (PoolThread.credit d) = 0 := by
    refine List.sum_eq_zero fun k hk => ?_
    obtain ⟨t, hmem, rfl⟩ := List.mem_map.mp hk
    obtain ⟨j, hj⟩ := List.mem_iff_getElem?.mp hmem
    rw [Array.getElem?_toList] at hj
    have hstill := hm j t hj
    cases t with
    | woken => exact absurd trivial hstill
    | signalling l r =>
      cases l with
      | nil => rfl
      | cons => exact absurd trivial hstill
    | _ => rfl
  have hsupply : m.pool.isClosed = false ∧ m.pool.supply d = 0 := by
    rcases h.owed d ⟨i, c, ht⟩ with ⟨j, l, r, hj, hl⟩ | ⟨hopen, hle⟩
    · cases l with
      | nil => cases hl
      | cons => exact absurd trivial (hm j _ hj)
    · exact ⟨hopen, Nat.le_zero.mp (hcredit ▸ hle)⟩
  have hproper : c.awaits? = some d := h.kept.proper ht
  refine ⟨hsupply.1, ?_⟩
  cases c with
  | push x =>
    obtain rfl := Option.some.inj hproper
    have hcap := m.pool.numFull_add_numFree
    have hzero : m.pool.capacity - m.pool.entries.length = 0 := hsupply.2
    rw [Pool.length_entries] at hzero
    exact Or.inl ⟨⟨x, rfl⟩, by omega⟩
  | pop =>
    obtain rfl := Option.some.inj hproper
    exact Or.inr ⟨rfl, List.length_eq_zero_iff.mp hsupply.2⟩
  | _ => cases hproper

end Monitor

end Dataflow
