import Dataflow.Proofs.Pool.Fifo

/-!
# What threads do at a pool

A call enters its critical section, perhaps several times, and each time one of few things
happens, `PoolCall.Comes`: it stores a value, takes one, is refused, finds nothing, closes the
pool, or goes to sleep. The critical sections that the threads of a monitor have passed make
up its history, and everything that is said about calls is said about that history:
`Monitor.Recorded` is a run of any number of threads under any schedule together with the
calls that were made and the sections that were passed.

A reply is given by exactly one passage, and a call has no more than one first passage,
`Monitor.Recorded.kept`. In between a thread only waits its turn, `PoolThread.Turn`.
-/

namespace Dataflow

variable {α : Type}

/-! ### One critical section -/

namespace PoolCall

/-- What a consumer looks for. -/
def wants : PoolCall α → Tagged α → Bool
  | pop, _ => true
  | tryPop, _ => true
  | take id, x => x.objectId == id
  | _, _ => false

/-- What a call sleeps on if it has to wait. -/
def awaits? : PoolCall α → Option Condition
  | push _ => some .notFull
  | pop => some .notEmpty
  | _ => none

/-- **All that a critical section can come to.** -/
inductive Comes (c : PoolCall α) (first : Bool) (p : Pool α) : Section α → Prop where
  | stored {x : Tagged α} {p' : Pool α} (hx : c.value? = some x)
      (hroom : p.view.refusal? = none)
      (hv : p'.view = { p.view with values := p.entries ++ [x] })
      (hs : p'.starved = p.starved) : Comes c first p (.leave p' [⟨.notEmpty, false⟩] .stored)
  | refused {x : Tagged α} {r : Refusal} (hx : c.value? = some x)
      (hr : p.view.refusal? = some r) (hc : c.awaits? = none ∨ r ≠ .full) :
      Comes c first p (.leave p [] (.rejected ⟨r, x⟩))
  | crowded {x : Tagged α} (hc : c = push x) (hr : p.view.refusal? = some .full) :
      Comes c first p (.sleep (if first then p.countStarved else p) .notFull)
  | taken {x : Tagged α} {p' : Pool α} (hc : c.value? = none)
      (hx : p.entries.find? c.wants = some x)
      (hv : p'.view = { p.view with values := p.entries.eraseP c.wants })
      (hs : p'.starved = p.starved) :
      Comes c first p (.leave p' [⟨.notFull, false⟩] (.taken (some x)))
  | missed (hc : c.value? = none) (hx : p.entries.find? c.wants = none)
      (ho : c.awaits? = none ∨ p.isClosed = true) : Comes c first p (.leave p [] (.taken none))
  | barren (hc : c = pop) (he : p.entries = []) (ho : p.isClosed = false) :
      Comes c first p (.sleep p .notEmpty)
  | closes (hc : c = close) :
      Comes c first p (.leave p.close [⟨.notFull, true⟩, ⟨.notEmpty, true⟩] .closed)

/-- A value that is brought without waiting is stored or refused. -/
theorem comes_afterPush {c : PoolCall α} {first : Bool} {p : Pool α} {x : Tagged α}
    (hx : c.value? = some x) (hc : c.awaits? = none ∨ p.view.refusal? ≠ some .full) :
    c.Comes first p (afterPush p (p.tryPush x)) := by
  rw [Pool.tryPush_eq]
  cases hr : p.view.refusal? with
  | none =>
    exact .stored hx hr (Pool.view_store x hr) (p.store_spec x (Pool.lt_of_accepts hr)).2.2.2
  | some r => exact .refused hx hr (hc.imp_right fun h e => h (by rw [hr, e]))

theorem enter_comes (c : PoolCall α) (first : Bool) (p : Pool α) :
    c.Comes first p (c.enter first p) := by
  cases c with
  | push x =>
    simp only [enter, Pool.push]
    by_cases hw : p.pushWaits = true
    · rw [if_pos hw]
      exact .crowded rfl (p.pushWaits_iff.mp hw)
    · rw [if_neg hw]
      exact comes_afterPush rfl (Or.inr fun h => hw (p.pushWaits_iff.mpr h))
  | tryPush x => exact comes_afterPush rfl (Or.inl rfl)
  | pop =>
    rcases p.tryPop_cases with ⟨hnil, hnone⟩ | ⟨x, xs, p', hcons, hsome, hview⟩
    · simp only [enter, Pool.pop_of_nil hnil]
      cases hc : p.isClosed with
      | true => exact .missed rfl (by simp [hnil]) (Or.inr hc)
      | false => exact .barren rfl hnil hc
    · have hgo := Pool.popWaits_of_ne_nil (p := p) (by simp [hcons])
      simp only [enter, Pool.pop, hgo, hsome]
      exact .taken rfl (by simp [hcons, wants]) (by rw [hview, hcons, List.eraseP_cons_of_pos rfl])
        (Pool.takeAt_eq_some hsome).2.2.2.2
  | tryPop =>
    rcases p.tryPop_cases with ⟨hnil, hnone⟩ | ⟨x, xs, p', hcons, hsome, hview⟩
    · simp only [enter, hnone]
      exact .missed rfl (by simp [hnil]) (Or.inl rfl)
    · simp only [enter, hsome]
      exact .taken rfl (by simp [hcons, wants]) (by rw [hview, hcons, List.eraseP_cons_of_pos rfl])
        (Pool.takeAt_eq_some hsome).2.2.2.2
  | take id =>
    rcases p.takeTagged_cases id with ⟨hfind, hnone⟩ | ⟨x, p', hfind, hsome, hview⟩
    · simp only [enter, hnone]
      exact .missed rfl hfind (Or.inl rfl)
    · have hs : p'.starved = p.starved := by
        unfold Pool.takeTagged at hsome
        split at hsome
        · exact (Pool.takeAt_eq_some hsome).2.2.2.2
        · cases hsome
      simp only [enter, hsome]
      exact .taken rfl hfind hview hs
  | close => exact .closes rfl

/-- No critical section changes the number of slots, and none opens a closed pool. -/
theorem Comes.capacity {c : PoolCall α} {first : Bool} {p : Pool α} {s : Section α}
    (h : c.Comes first p s) : s.pool.capacity = p.capacity := by
  cases h with
  | stored _ _ hv _ | taken _ _ hv _ => exact congrArg Fifo.capacity hv
  | crowded => cases first <;> rfl
  | _ => rfl

theorem Comes.isClosed {c : PoolCall α} {first : Bool} {p : Pool α} {s : Section α}
    (h : c.Comes first p s) (hp : p.isClosed = true) : s.pool.isClosed = true := by
  cases h with
  | stored _ _ hv _ | taken _ _ hv _ => exact (congrArg Fifo.isClosed hv).trans hp
  | crowded => cases first <;> exact hp
  | closes => rfl
  | _ => exact hp

end PoolCall

/-! ### Where a thread stands -/

namespace PoolThread

/-- The call of a thread that has not got its reply yet. -/
def call? : PoolThread α → Option (PoolCall α)
  | entering c => some c
  | asleep _ c => some c
  | woken c => some c
  | _ => none

/-- The reply of a thread that has left its last critical section. -/
def outcome? : PoolThread α → Option (PoolReply α)
  | signalling _ r => some r
  | done r => some r
  | _ => none

/-- Only a call that has to wait sleeps or is woken, and it sleeps on its own condition. -/
def Proper : PoolThread α → Prop
  | asleep d c => c.awaits? = some d
  | woken c => c.awaits?.isSome
  | _ => True

theorem proper_ofSection {c : PoolCall α} {first : Bool} {p : Pool α} {s : Section α}
    (h : c.Comes first p s) : (ofSection c s).Proper := by
  cases h with
  | crowded hc => exact hc ▸ rfl
  | barren hc => exact hc ▸ rfl
  | _ => trivial

/-- **What may happen to a thread outside its critical sections.** -/
inductive Turn : PoolThread α → PoolThread α → Prop where
  | still (t : PoolThread α) : Turn t t
  | wake (d : Condition) (c : PoolCall α) : Turn (asleep d c) (woken c)
  | signal (s : Signal) (l : List Signal) (r : PoolReply α) :
      Turn (signalling (s :: l) r) (signalling l r)
  | finish (r : PoolReply α) : Turn (signalling [] r) (done r)

variable {t t' : PoolThread α}

theorem Turn.call? (h : Turn t t') : t'.call? = t.call? := by
  cases h <;> rfl

theorem Turn.outcome? (h : Turn t t') : t'.outcome? = t.outcome? := by
  cases h <;> rfl

theorem Turn.proper (h : Turn t t') (ht : t.Proper) : t'.Proper := by
  cases h with
  | still => exact ht
  | wake d c => exact Option.isSome_iff_exists.mpr ⟨d, ht⟩
  | signal | finish => trivial

theorem Turn.entering {c : PoolCall α} (h : Turn t (entering c)) : t = entering c := by
  cases h
  rfl

theorem turn_rouse (d : Condition) (t : PoolThread α) :
    Turn t (if t.sleepsOn d then t.rouse else t) := by
  split
  · cases t with
    | asleep d c => exact .wake d c
    | _ => exact .still _
  · exact .still _

end PoolThread

/-! ### Steps -/

/-- A critical section that a thread has passed: its call, whether it was the first one of
the call, and the pool that it found. -/
structure Passage (α : Type) where
  thread : Nat
  call : PoolCall α
  first : Bool
  pool : Pool α

/-- What the critical section came to. -/
def Passage.came (p : Passage α) : Section α :=
  p.call.enter p.first p.pool

/-- The reply of a call that was over then. -/
def Passage.reply? (p : Passage α) : Option (PoolReply α) :=
  p.came.answer?.map (·.1)

namespace Monitor

/-- The critical section that the next step of a thread passes, if it does. -/
def passage? (m : Monitor α) (i : Nat) : Option (Passage α) :=
  match m.threads[i]? with
  | some (.entering c) => some ⟨i, c, true, m.pool⟩
  | some (.woken c) => some ⟨i, c, false, m.pool⟩
  | _ => none

/-- **All that the step of a thread can be.** -/
inductive Move (m : Monitor α) (i : Nat) : Monitor α → Option (Passage α) → Prop where
  | enter {c : PoolCall α} (ht : m.threads[i]? = some (.entering c)) :
      Move m i (m.pass i c true) (some ⟨i, c, true, m.pool⟩)
  | resume {c : PoolCall α} (ht : m.threads[i]? = some (.woken c)) :
      Move m i (m.pass i c false) (some ⟨i, c, false, m.pool⟩)
  | wake {d : Condition} {c : PoolCall α} (ht : m.threads[i]? = some (.asleep d c)) :
      Move m i { m with threads := m.threads.setIfInBounds i (.woken c) } none
  | finish {r : PoolReply α} (ht : m.threads[i]? = some (.signalling [] r)) :
      Move m i { m with threads := m.threads.setIfInBounds i (.done r) } none
  | signalAll {s : Signal} {l : List Signal} {r : PoolReply α}
      (ht : m.threads[i]? = some (.signalling (s :: l) r)) (hs : s.toAll = true) :
      Move m i { m with
        threads := (m.threads.setIfInBounds i (.signalling l r)).map fun t =>
          if t.sleepsOn s.condition then t.rouse else t } none
  | signalNone {s : Signal} {l : List Signal} {r : PoolReply α}
      (ht : m.threads[i]? = some (.signalling (s :: l) r)) (hs : s.toAll = false)
      (hnone : ∀ t ∈ m.threads, t.sleepsOn s.condition = false) :
      Move m i { m with threads := m.threads.setIfInBounds i (.signalling l r) } none
  | signalOne {s : Signal} {l : List Signal} {r : PoolReply α} {j : Nat} {c : PoolCall α}
      (ht : m.threads[i]? = some (.signalling (s :: l) r)) (hs : s.toAll = false)
      (hj : m.threads[j]? = some (.asleep s.condition c)) :
      Move m i { m with
        threads := (m.threads.setIfInBounds i (.signalling l r)).setIfInBounds j (.woken c) }
        none

theorem modify_eq_setIfInBounds {β : Type} {a : Array β} {j : Nat} {x : β} (f : β → β)
    (h : a[j]? = some x) : a.modify j f = a.setIfInBounds j (f x) := by
  refine Array.ext_getElem? fun k => ?_
  rw [Array.getElem?_modify, Array.getElem?_setIfInBounds]
  split
  · next hk =>
    subst hk
    rw [h, if_pos (Array.getElem?_eq_some_iff.mp h).1]
    rfl
  · rfl

theorem asleep_of_sleepsOn {t : PoolThread α} {d : Condition} (h : t.sleepsOn d = true) :
    ∃ c, t = .asleep d c := by
  cases t with
  | asleep d' c =>
    obtain rfl : d = d' := by simpa [PoolThread.sleepsOn] using h
    exact ⟨c, rfl⟩
  | _ => cases h

theorem move_of_advance {m m' : Monitor α} {i : Nat} {target : Option Nat}
    (h : m.advance i target = some m') : m.Move i m' (m.passage? i) := by
  unfold advance at h
  unfold passage?
  split at h
  · next c ht =>
    obtain rfl := Option.some.inj h
    rw [ht]
    exact .enter ht
  · next c ht =>
    obtain rfl := Option.some.inj h
    rw [ht]
    exact .resume ht
  · next ht =>
    obtain rfl := Option.some.inj h
    rw [ht]
    exact .wake ht
  · next ht =>
    obtain rfl := Option.some.inj h
    rw [ht]
    exact .finish ht
  · next s l r ht =>
    rw [ht]
    simp only at h
    split at h
    · next hs =>
      obtain rfl := Option.some.inj h
      exact .signalAll ht hs
    next hs =>
    have hs : s.toAll = false := by simpa using hs
    split at h
    · split at h
      · next hnone =>
        obtain rfl := Option.some.inj h
        refine .signalNone ht hs fun t hmem => ?_
        simpa using Array.findIdx?_eq_none_iff.mp (Option.isNone_iff_eq_none.mp hnone) t hmem
      · cases h
    · next j =>
      split at h
      · next hj =>
        obtain rfl := Option.some.inj h
        obtain ⟨t, hjt, hsleep⟩ := (Option.any_eq_true ..).mp hj
        obtain ⟨c, rfl⟩ := asleep_of_sleepsOn hsleep
        have hij : i ≠ j := by
          rintro rfl
          rw [ht] at hjt
          cases hjt
        rw [modify_eq_setIfInBounds PoolThread.rouse
          ((Array.getElem?_setIfInBounds_ne hij).trans hjt)]
        exact .signalOne ht hs hjt
      · cases h
  · cases h

/-- Outside critical sections nothing happens to the pool, and every thread only waits its
turn. -/
theorem Move.turn {m m' : Monitor α} {i : Nat} (h : m.Move i m' none) {j : Nat}
    {t' : PoolThread α} (hj : m'.threads[j]? = some t') :
    ∃ t, m.threads[j]? = some t ∧ PoolThread.Turn t t' := by
  have hset : ∀ {k : Nat} {u u' t' : PoolThread α}, m.threads[k]? = some u →
      PoolThread.Turn u u' → (m.threads.setIfInBounds k u')[j]? = some t' →
      ∃ t, m.threads[j]? = some t ∧ PoolThread.Turn t t' := by
    intro k u u' t' hu hturn ht'
    by_cases hk : k = j
    · subst hk
      rw [Array.getElem?_setIfInBounds_self, if_pos (Array.getElem?_eq_some_iff.mp hu).1] at ht'
      obtain rfl := Option.some.inj ht'
      exact ⟨u, hu, hturn⟩
    · rw [Array.getElem?_setIfInBounds_ne hk] at ht'
      exact ⟨t', ht', .still t'⟩
  cases h with
  | wake ht => exact hset ht (.wake ..) hj
  | finish ht => exact hset ht (.finish ..) hj
  | @signalAll s l r ht hs =>
    rw [Array.getElem?_map] at hj
    obtain ⟨u, hu, rfl⟩ := Option.map_eq_some_iff.mp hj
    by_cases hi : i = j
    · obtain ⟨t, ht', hturn⟩ := hset ht (.signal s l r) hu
      subst hi
      rw [Array.getElem?_setIfInBounds_self, if_pos (Array.getElem?_eq_some_iff.mp ht).1] at hu
      obtain rfl := Option.some.inj hu
      exact ⟨t, ht', hturn⟩
    · rw [Array.getElem?_setIfInBounds_ne hi] at hu
      exact ⟨u, hu, PoolThread.turn_rouse s.condition u⟩
  | signalNone ht hs hnone => exact hset ht (.signal ..) hj
  | @signalOne s l r k c ht hs hk =>
    by_cases hkj : k = j
    · subst hkj
      rw [Array.getElem?_setIfInBounds_self] at hj
      split at hj
      · obtain rfl := Option.some.inj hj
        exact ⟨_, hk, .wake ..⟩
      · cases hj
    · rw [Array.getElem?_setIfInBounds_ne hkj] at hj
      exact hset ht (.signal ..) hj

theorem Move.pool_eq {m m' : Monitor α} {i : Nat} (h : m.Move i m' none) : m'.pool = m.pool := by
  cases h <;> rfl

theorem Move.size_threads {m m' : Monitor α} {i : Nat} {P : Option (Passage α)}
    (h : m.Move i m' P) : m'.threads.size = m.threads.size := by
  cases h <;> simp [pass]

/-- What turns leave alone can be read off a thread before or after them. -/
theorem Move.bind_eq {m m' : Monitor α} {i : Nat} (h : m.Move i m' none) {β : Type}
    {f : PoolThread α → Option β} (hf : ∀ {t t'}, PoolThread.Turn t t' → f t' = f t) (j : Nat) :
    m'.threads[j]?.bind f = m.threads[j]?.bind f := by
  cases hj : m'.threads[j]? with
  | none =>
    rw [Array.getElem?_eq_none_iff, h.size_threads, ← Array.getElem?_eq_none_iff] at hj
    rw [hj]
  | some t' =>
    obtain ⟨t, ht, hturn⟩ := h.turn hj
    rw [ht, Option.bind_some, Option.bind_some, hf hturn]

/-- **A run of any number of threads under any schedule**, with the calls that they make and
the critical sections that they pass. -/
inductive Recorded (n : Nat) :
    Monitor α → List (PoolCall α) → List (Passage α) → Prop where
  | start : Recorded n ⟨.new n, #[]⟩ [] []
  | call {m : Monitor α} {calls : List (PoolCall α)} {H : List (Passage α)}
      (h : Recorded n m calls H) (c : PoolCall α) : Recorded n (m.call c) (calls ++ [c]) H
  | step {m m' : Monitor α} {calls : List (PoolCall α)} {H : List (Passage α)}
      (h : Recorded n m calls H) {i : Nat} {target : Option Nat}
      (hs : m.advance i target = some m') :
      Recorded n m' calls (H ++ (m.passage? i).toList)

/-! ### The books of a run -/

variable {n : Nat} {m m' : Monitor α} {calls : List (PoolCall α)} {H : List (Passage α)}

/-- **The books of a run**: what calls are said to have done can be read off the critical
sections that were passed. -/
structure Kept (n : Nat) (m : Monitor α) (calls : List (PoolCall α)) (H : List (Passage α)) :
    Prop where
  size : m.threads.size = calls.length
  capacity : m.pool.capacity = n
  /-- A thread makes the call that was made under its number. -/
  call : ∀ {i : Nat} {c : PoolCall α}, m.threads[i]?.bind PoolThread.call? = some c → calls[i]? = some c
  proper : ∀ {i : Nat} {t : PoolThread α}, m.threads[i]? = some t → t.Proper
  passed : ∀ p ∈ H, calls[p.thread]? = some p.call ∧ p.pool.capacity = n
  /-- Who has not entered yet has passed nothing. -/
  fresh : ∀ {i : Nat} {c : PoolCall α}, m.threads[i]? = some (.entering c) → ∀ p ∈ H, p.thread ≠ i
  once : ((H.filter (·.first)).map (·.thread)).Nodup
  /-- The reply of a thread is that of a critical section it has passed. -/
  reply : ∀ {i : Nat} {r : PoolReply α}, m.threads[i]?.bind PoolThread.outcome? = some r ↔
    ∃ p ∈ H, p.thread = i ∧ p.reply? = some r
  replied : ((H.filter (·.reply?.isSome)).map (·.thread)).Nodup

/-- Outside critical sections the books do not change. -/
theorem Kept.move (h : Kept n m calls H) {i : Nat} (hm : m.Move i m' none) :
    Kept n m' calls H where
  size := hm.size_threads.trans h.size
  capacity := hm.pool_eq ▸ h.capacity
  call := fun hc => h.call (hm.bind_eq PoolThread.Turn.call? _ ▸ hc)
  proper := fun ht' => by
    obtain ⟨t, ht, hturn⟩ := hm.turn ht'
    exact hturn.proper (h.proper ht)
  passed := h.passed
  fresh := fun ht' => by
    obtain ⟨t, ht, hturn⟩ := hm.turn ht'
    exact h.fresh (hturn.entering ▸ ht)
  once := h.once
  reply := fun {i r} => by
    rw [hm.bind_eq PoolThread.Turn.outcome?]
    exact h.reply
  replied := h.replied

/-- A thread without a reply has not passed a critical section that gave it one. -/
theorem Kept.silent (h : Kept n m calls H) {i : Nat}
    (ho : m.threads[i]?.bind PoolThread.outcome? = none) {p : Passage α} (hp : p ∈ H)
    (hpi : p.thread = i) : p.reply? = none := by
  by_contra hne
  obtain ⟨r, hr⟩ := Option.ne_none_iff_exists'.mp hne
  have hsome := h.reply.mpr ⟨p, hp, hpi, hr⟩
  rw [ho] at hsome
  cases hsome

section Pass

variable (m) {i : Nat} (c : PoolCall α) (first : Bool)

theorem getElem?_pass_self (hi : i < m.threads.size) :
    (m.pass i c first).threads[i]? = some (.ofSection c (c.enter first m.pool)) := by
  simp [pass, hi]

theorem getElem?_pass_ne {j : Nat} (hj : j ≠ i) :
    (m.pass i c first).threads[j]? = m.threads[j]? :=
  Array.getElem?_setIfInBounds_ne hj.symm

end Pass

/-- One more critical section on record, of a kind that its thread has not passed before. -/
theorem nodup_passed {q : Passage α → Bool} {p : Passage α}
    (h : ((H.filter q).map (·.thread)).Nodup)
    (hp : q p = true → ∀ p' ∈ H, q p' = true → p'.thread ≠ p.thread) :
    (((H ++ [p]).filter q).map (·.thread)).Nodup := by
  rw [List.filter_append, List.map_append]
  refine List.nodup_append.mpr ⟨h, ?_, ?_⟩
  · exact List.Nodup.sublist (List.filter_sublist.map Passage.thread)
      (List.nodup_singleton p.thread)
  · intro j hj j' hj' he
    obtain ⟨p', hp', rfl⟩ := List.mem_map.mp hj
    obtain ⟨p'', hp'', rfl⟩ := List.mem_map.mp hj'
    obtain ⟨hmem, hq⟩ := List.mem_filter.mp hp''
    obtain rfl := List.mem_singleton.mp hmem
    obtain ⟨hmem', hq'⟩ := List.mem_filter.mp hp'
    exact hp hq p' hmem' hq' he

/-- The reply that a thread has after a critical section is the one that it got there, and
all other threads have theirs. -/
theorem Kept.reply_pass (h : Kept n m calls H) {i : Nat} {c : PoolCall α} {first : Bool}
    {t : PoolThread α} (ht : m.threads[i]? = some t) (ho : t.outcome? = none) {j : Nat}
    {r : PoolReply α} : (m.pass i c first).threads[j]?.bind PoolThread.outcome? = some r ↔
      ∃ p ∈ H ++ [⟨i, c, first, m.pool⟩], p.thread = j ∧ p.reply? = some r := by
  simp only [List.mem_append, List.mem_singleton, or_and_right, exists_or, exists_eq_left]
  by_cases hj : j = i
  · subst hj
    have hreply : (m.pass j c first).threads[j]?.bind PoolThread.outcome? =
        Passage.reply? ⟨j, c, first, m.pool⟩ := by
      rw [m.getElem?_pass_self c first (Array.getElem?_eq_some_iff.mp ht).1, Passage.reply?,
        Passage.came]
      cases c.enter first m.pool <;> rfl
    have hsilent : ¬ ∃ p ∈ H, p.thread = j ∧ p.reply? = some r := by
      rintro ⟨p, hp, hpj, hr⟩
      rw [h.silent (by rw [ht]; exact ho) hp hpj] at hr
      cases hr
    rw [hreply, or_iff_right hsilent, and_iff_right rfl]
  · rw [m.getElem?_pass_ne c first hj, h.reply]
    exact (or_iff_left fun hr => hj hr.1.symm).symm

/-- A thread passes a critical section: it has no reply yet, and gets one if the call is
over. -/
theorem Kept.pass (h : Kept n m calls H) {i : Nat} {c : PoolCall α} {first : Bool}
    {t : PoolThread α} (ht : m.threads[i]? = some t) (hc : t.call? = some c)
    (ho : t.outcome? = none) (hfirst : first = true → t = .entering c) :
    Kept n (m.pass i c first) calls (H ++ [⟨i, c, first, m.pool⟩]) := by
  have hself := m.getElem?_pass_self c first (Array.getElem?_eq_some_iff.mp ht).1
  have hcomes := c.enter_comes first m.pool
  have hcall : calls[i]? = some c := h.call (by rw [ht]; exact hc)
  refine {
    size := by simpa [Monitor.pass] using h.size
    capacity := hcomes.capacity.trans h.capacity
    call := fun {j d} hd => ?_
    proper := fun {j u} hu => ?_
    passed := fun p hp => ?_
    fresh := fun {j d} hd p hp => ?_
    once := nodup_passed h.once fun hf p hp _ => h.fresh (hfirst hf ▸ ht) p hp
    reply := h.reply_pass ht ho
    replied := nodup_passed h.replied fun _ p hp hr he => ?_ }
  · by_cases hj : j = i
    · subst hj
      rw [hself] at hd
      cases hs : c.enter first m.pool with
      | leave => rw [hs] at hd; cases hd
      | sleep => exact (by simpa [hs, PoolThread.ofSection, PoolThread.call?] using hd) ▸ hcall
    · rw [m.getElem?_pass_ne c first hj] at hd
      exact h.call hd
  · by_cases hj : j = i
    · subst hj
      obtain rfl := Option.some.inj (hself.symm.trans hu)
      exact PoolThread.proper_ofSection hcomes
    · rw [m.getElem?_pass_ne c first hj] at hu
      exact h.proper hu
  · rcases List.mem_append.mp hp with hp | hp
    · exact h.passed p hp
    · obtain rfl := List.mem_singleton.mp hp
      exact ⟨hcall, h.capacity⟩
  · have hj : j ≠ i := by
      rintro rfl
      rw [hself] at hd
      cases hs : c.enter first m.pool <;> rw [hs] at hd <;> cases hd
    rw [m.getElem?_pass_ne c first hj] at hd
    rcases List.mem_append.mp hp with hp | hp
    · exact h.fresh hd p hp
    · obtain rfl := List.mem_singleton.mp hp
      exact hj.symm
  · rw [h.silent (by rw [ht]; exact ho) hp he] at hr
    cases hr

/-- A thread that starts a call has done nothing yet. -/
theorem Kept.start (h : Kept n m calls H) (c : PoolCall α) :
    Kept n (m.call c) (calls ++ [c]) H := by
  have hold : ∀ {i : Nat} {d : PoolCall α}, calls[i]? = some d → (calls ++ [c])[i]? = some d := by
    intro i d hd
    rw [List.getElem?_append_left (List.getElem?_eq_some_iff.mp hd).1, hd]
  have hquiet : ∀ p ∈ H, p.thread ≠ m.threads.size := by
    intro p hp
    rw [h.size]
    exact Nat.ne_of_lt (List.getElem?_eq_some_iff.mp (h.passed p hp).1).1
  have hread : ∀ i : Nat, (m.call c).threads[i]? =
      if i = m.threads.size then some (.entering c) else m.threads[i]? :=
    fun i => Array.getElem?_push
  constructor
  · simp [Monitor.call, h.size]
  · exact h.capacity
  · intro i d hd
    rw [hread] at hd
    split at hd
    · next hi =>
      obtain rfl : c = d := by simpa [PoolThread.call?] using hd
      rw [hi, h.size, List.getElem?_concat_length]
    · exact hold (h.call hd)
  · intro i t ht
    rw [hread] at ht
    split at ht
    · obtain rfl := Option.some.inj ht
      trivial
    · exact h.proper ht
  · intro p hp
    exact ⟨hold (h.passed p hp).1, (h.passed p hp).2⟩
  · intro i d hd
    rw [hread] at hd
    split at hd
    · next hi => exact hi ▸ hquiet
    · exact h.fresh hd
  · exact h.once
  · intro i r
    rw [hread]
    split
    · next hi =>
      subst hi
      refine iff_of_false (by simp [PoolThread.outcome?]) ?_
      rintro ⟨p, hp, hpi, -⟩
      exact hquiet p hp hpi
    · exact h.reply
  · exact h.replied

/-- **The books of every run are kept.** -/
theorem Recorded.kept (h : Recorded n m calls H) : Kept n m calls H := by
  induction h with
  | start => constructor <;> simp
  | call _ c ih => exact ih.start c
  | step _ hs ih =>
    have hm := move_of_advance hs
    generalize Monitor.passage? _ _ = P at hm ⊢
    cases hm with
    | enter ht => exact ih.pass ht rfl rfl fun _ => rfl
    | resume ht => exact ih.pass ht rfl rfl nofun
    | wake ht => simpa using ih.move (.wake ht)
    | finish ht => simpa using ih.move (.finish ht)
    | signalAll ht hall => simpa using ih.move (.signalAll ht hall)
    | signalNone ht hone hnone => simpa using ih.move (.signalNone ht hone hnone)
    | signalOne ht hone hj => simpa using ih.move (.signalOne ht hone hj)

end Monitor

end Dataflow
