import Mathlib.Data.List.Induction
import Dataflow.Proofs.Pool.Passages

/-!
# What goes through a pool

The values that a pool accepts are numbered as they come, and `Traffic` keeps the numbers of
those that are still stored and of those that were handed out, as the critical sections of a
run tell it. It knows nothing of slots and threads: a consumer gets the oldest value that it
wants. `Traffic.Sound` says that this is what happens. Every number is either stored or has
been handed out, once; what is stored lies there in order; and a value is handed out only when
all older ones that the consumer might have wanted instead are gone.

`Monitor.Recorded.sound` proves it of every run, and `Monitor.Recorded.replied` that threads
are told the same.
-/

namespace Dataflow

variable {α : Type}

/-! ### Reading a history -/

namespace Passage

/-- The value that was stored. -/
def stored? (p : Passage α) : Option (Tagged α) :=
  match p.reply? with
  | some .stored => p.call.value?
  | _ => none

/-- The value that was taken. -/
def taken? (p : Passage α) : Option (Tagged α) :=
  match p.reply? with
  | some (.taken x) => x
  | _ => none

theorem stored?_eq_some {p : Passage α} {x : Tagged α} :
    p.stored? = some x ↔ p.reply? = some .stored ∧ p.call.value? = some x := by
  unfold stored?
  split
  · next h => simp [h]
  · next h => simpa using fun hs => absurd hs h

theorem taken?_eq_some {p : Passage α} {x : Tagged α} :
    p.taken? = some x ↔ p.reply? = some (.taken (some x)) := by
  unfold taken?
  split
  · next h => simp [h]
  · next h => simpa using h (some x)

end Passage

/-- A value that was handed out: to which thread, on which call, and the number under which it
had been accepted. -/
structure Handout (α : Type) where
  thread : Nat
  call : PoolCall α
  number : Nat
  value : Tagged α

/-- What has gone through a pool: the values accepted in order, each with the thread that
brought it, the numbers of those that are still stored, and what was handed out in order. -/
structure Traffic (α : Type) where
  accepted : List (Nat × Tagged α) := []
  held : List Nat := []
  handed : List (Handout α) := []

namespace Traffic

/-- The value accepted under a number. -/
def value? (t : Traffic α) (k : Nat) : Option (Tagged α) :=
  t.accepted[k]?.map (·.2)

def accept (t : Traffic α) (thread : Nat) (x : Tagged α) : Traffic α :=
  { t with
    accepted := t.accepted ++ [(thread, x)]
    held := t.held ++ [t.accepted.length] }

/-- The oldest stored value that the call wants leaves; if there were none, it would get a
number that no value has. -/
def handOut (t : Traffic α) (thread : Nat) (c : PoolCall α) (x : Tagged α) : Traffic α :=
  { t with
    held := t.held.eraseP fun k => (t.value? k).any c.wants
    handed := t.handed ++ [{
      thread
      call := c
      number := (t.held.find? fun k => (t.value? k).any c.wants).getD t.accepted.length
      value := x }] }

/-- What a critical section adds. -/
def pass (t : Traffic α) (p : Passage α) : Traffic α :=
  match p.stored?, p.taken? with
  | some x, _ => t.accept p.thread x
  | none, some x => t.handOut p.thread p.call x
  | none, none => t

/-- What has gone through the pool in the course of a history. -/
def of (H : List (Passage α)) : Traffic α :=
  H.foldl pass {}

theorem of_concat (H : List (Passage α)) (p : Passage α) : of (H ++ [p]) = (of H).pass p := by
  rw [of, List.foldl_append]
  rfl

/-- **The traffic is sound**, seen from what the pool holds. -/
structure Sound (t : Traffic α) (entries : List (Tagged α)) : Prop where
  sorted : t.held.Pairwise (· < ·)
  /-- Every accepted value is stored or was handed out, and that once. -/
  shared : (t.handed.map (·.number) ++ t.held).Perm (List.range t.accepted.length)
  stored : t.held.map t.value? = entries.map some
  given : ∀ g ∈ t.handed, t.value? g.number = some g.value
  /-- A value is handed out after all older ones that the call wants. -/
  inOrder : ∀ {l g r}, t.handed = l ++ g :: r → ∀ k < g.number, ∀ x, t.value? k = some x →
    g.call.wants x = true → k ∈ l.map (·.number)

variable {t : Traffic α} {entries : List (Tagged α)}

theorem sound_empty : ({} : Traffic α).Sound [] where
  sorted := .nil
  shared := .nil
  stored := rfl
  given := nofun
  inOrder := fun h => by simp at h

theorem Sound.lt_of_held (h : t.Sound entries) {k : Nat} (hk : k ∈ t.held) :
    k < t.accepted.length :=
  List.mem_range.mp (h.shared.mem_iff.mp (List.mem_append_right _ hk))

theorem Sound.lt_of_handed (h : t.Sound entries) {g : Handout α} (hg : g ∈ t.handed) :
    g.number < t.accepted.length :=
  List.mem_range.mp (h.shared.mem_iff.mp
    (List.mem_append_left _ (List.mem_map_of_mem hg)))

theorem value?_accept (t : Traffic α) (i : Nat) (x : Tagged α) (k : Nat) :
    (t.accept i x).value? k = if k = t.accepted.length then some x else t.value? k := by
  simp only [value?, accept]
  split
  · next hk => rw [hk, List.getElem?_concat_length, Option.map_some]
  · next hk =>
    rcases Nat.lt_or_gt_of_ne hk with hlt | hgt
    · rw [List.getElem?_append_left hlt]
    · have hlen : (t.accepted ++ [(i, x)]).length ≤ k := by
        rw [List.length_append]
        exact hgt
      rw [List.getElem?_eq_none hlen, List.getElem?_eq_none (Nat.le_of_lt hgt)]

/-- An accepted value gets the next number and is stored behind the others. -/
theorem Sound.accept (h : t.Sound entries) (i : Nat) (x : Tagged α) :
    (t.accept i x).Sound (entries ++ [x]) := by
  have hold : ∀ {k}, k < t.accepted.length → (t.accept i x).value? k = t.value? k :=
    fun hk => by rw [value?_accept, if_neg (Nat.ne_of_lt hk)]
  constructor
  · refine List.pairwise_append.mpr ⟨h.sorted, List.pairwise_singleton _ _, ?_⟩
    intro k hk l hl
    rw [List.mem_singleton.mp hl]
    exact h.lt_of_held hk
  · simp only [Traffic.accept, List.length_append, List.length_singleton, List.range_succ]
    rw [← List.append_assoc]
    exact h.shared.append_right _
  · have hmap : t.held.map (t.accept i x).value? = t.held.map t.value? :=
      List.map_congr_left fun k hk => hold (h.lt_of_held hk)
    have hlast : (t.accept i x).value? t.accepted.length = some x := by
      rw [value?_accept, if_pos rfl]
    show (t.held ++ [t.accepted.length]).map (t.accept i x).value? = _
    rw [List.map_append, List.map_append, hmap, h.stored, List.map_singleton, hlast,
      List.map_singleton]
  · intro g hg
    rw [hold (h.lt_of_handed hg)]
    exact h.given g hg
  · intro l g r he k hk y hy hw
    have hg : g ∈ t.handed := he ▸ List.mem_append_right _ (List.mem_cons_self ..)
    rw [hold (Nat.lt_trans hk (h.lt_of_handed hg))] at hy
    exact h.inOrder he k hk y hy hw

/-- The oldest value that a call wants, found by its number. -/
theorem Sound.oldest (h : t.Sound entries) {c : PoolCall α} {x : Tagged α}
    (hx : entries.find? c.wants = some x) : ∃ k old young, t.held = old ++ k :: young ∧
      t.value? k = some x ∧ (t.value? k).any c.wants = true ∧
      ∀ j ∈ old, ¬ (t.value? j).any c.wants = true := by
  have hfind := congrArg (List.find? (Option.any c.wants)) h.stored
  have hsome : (Option.any c.wants ∘ some : Tagged α → Bool) = c.wants := rfl
  rw [List.find?_map, List.find?_map, hsome, hx] at hfind
  obtain ⟨k, hk, hkx⟩ := Option.map_eq_some_iff.mp hfind
  obtain ⟨hwk, old, young, hheld, hbefore⟩ := List.find?_eq_some_iff_append.mp hk
  exact ⟨k, old, young, hheld, hkx, hwk, fun j hj => by simpa using hbefore j hj⟩

/-- What leaves the pool and what leaves the traffic are the same. -/
theorem Sound.stored_eraseP (h : t.Sound entries) (c : PoolCall α) :
    (t.held.eraseP fun k => (t.value? k).any c.wants).map t.value? =
      (entries.eraseP c.wants).map some := by
  have he := congrArg (List.eraseP (Option.any c.wants)) h.stored
  rw [List.eraseP_map, List.eraseP_map] at he
  exact he

/-- What was accepted before a stored value has been handed out, unless it lies before it. -/
theorem Sound.mem_handed (h : t.Sound entries) {k j : Nat} {old young : List Nat}
    (hheld : t.held = old ++ k :: young) (hj : j < k) (hold : j ∉ old) :
    j ∈ t.handed.map (·.number) := by
  have hk : k < t.accepted.length :=
    h.lt_of_held (hheld ▸ List.mem_append_right _ (List.mem_cons_self ..))
  have hmem := h.shared.mem_iff.mpr (List.mem_range.mpr (Nat.lt_trans hj hk))
  refine (List.mem_append.mp hmem).resolve_right fun hstored => ?_
  have hsorted := h.sorted
  rw [hheld] at hstored hsorted
  rcases List.mem_cons.mp ((List.mem_append.mp hstored).resolve_left hold) with rfl | hyoung
  · exact Nat.lt_irrefl _ hj
  · have hlt := List.rel_of_pairwise_cons (List.pairwise_append.mp hsorted).2.1 hyoung
    exact Nat.lt_asymm hj hlt

/-- The oldest value that the call wants is handed out. -/
theorem Sound.handOut (h : t.Sound entries) (i : Nat) {c : PoolCall α} {x : Tagged α}
    (hx : entries.find? c.wants = some x) :
    (t.handOut i c x).Sound (entries.eraseP c.wants) := by
  obtain ⟨k, old, young, hheld, hkx, hwk, hold⟩ := h.oldest hx
  have herase : t.held.eraseP (fun k => (t.value? k).any c.wants) = old ++ young := by
    rw [hheld, List.eraseP_append_right _ hold, List.eraseP_cons, hwk, cond_true]
  have hfind : t.held.find? (fun k => (t.value? k).any c.wants) = some k := by
    rw [hheld, List.find?_append, List.find?_eq_none.mpr hold, Option.none_or]
    exact List.find?_cons_of_pos hwk
  have hnew : t.handOut i c x = { t with
      held := old ++ young
      handed := t.handed ++ [⟨i, c, k, x⟩] } := by
    rw [Traffic.handOut, herase, hfind]
    rfl
  have hperm : (k :: (old ++ young)).Perm t.held := hheld ▸ List.perm_middle.symm
  rw [hnew]
  constructor
  · exact h.sorted.sublist
      (hheld ▸ (List.Sublist.refl old).append (List.sublist_cons_self k young))
  · rw [List.map_append, List.append_assoc]
    exact (hperm.append_left _).trans h.shared
  · rw [← h.stored_eraseP c, herase]
    rfl
  · intro g hg
    rcases List.mem_append.mp hg with hg | hg
    · exact h.given g hg
    · obtain rfl := List.mem_singleton.mp hg
      exact hkx
  · intro l g r he j hj y hy hw
    rcases List.eq_nil_or_concat r with rfl | ⟨r', g', rfl⟩
    · -- it is the value that was handed out last: what is older and wanted is not stored
      obtain ⟨rfl, hg⟩ := List.append_inj' he rfl
      obtain rfl := List.singleton_inj.mp hg
      refine h.mem_handed hheld hj fun hmem => hold j hmem ?_
      rw [show t.value? j = some y from hy]
      exact hw
    · rw [List.concat_eq_append, ← List.cons_append, ← List.append_assoc] at he
      exact h.inOrder (List.append_inj' he rfl).1 j hj y hy hw

/-- **What a critical section does to the pool it does to the traffic.** -/
theorem Sound.pass {p : Passage α} (h : t.Sound p.pool.entries) :
    (t.pass p).Sound p.came.pool.entries := by
  have hcomes := p.call.enter_comes p.first p.pool
  unfold Traffic.pass Passage.stored? Passage.taken? Passage.reply?
  rw [Passage.came]
  generalize p.call.enter p.first p.pool = s at hcomes
  cases hcomes with
  | @stored x p' hx _ hv _ =>
    have he : p'.entries = p.pool.entries ++ [x] := congrArg Fifo.values hv
    simp only [Section.answer?, Option.map_some, hx, Section.pool, he]
    exact h.accept p.thread x
  | @taken x p' _ hx hv _ =>
    have he : p'.entries = p.pool.entries.eraseP p.call.wants := congrArg Fifo.values hv
    simp only [Section.answer?, Option.map_some, Section.pool, he]
    exact h.handOut p.thread hx
  | crowded => cases p.first <;> exact h
  | refused | missed | barren | closes => exact h

/-! ### What the traffic says about the history -/

/-- The values accepted are those that the history says were stored. -/
theorem accepted_of (H : List (Passage α)) :
    (of H).accepted = H.filterMap fun p => p.stored?.map fun x => (p.thread, x) := by
  induction H using List.reverseRecOn with
  | nil => rfl
  | append_singleton H p ih =>
    rw [of_concat, List.filterMap_append, ← ih, pass]
    cases hs : p.stored? with
    | some x => simp [hs, accept]
    | none => cases ht : p.taken? <;> simp [hs, Traffic.handOut]

/-- The values handed out are those that the history says were taken. -/
theorem handed_of (H : List (Passage α)) :
    (of H).handed.map (fun g => (g.thread, g.call, g.value)) =
      H.filterMap fun p => p.taken?.map fun x => (p.thread, p.call, x) := by
  induction H using List.reverseRecOn with
  | nil => rfl
  | append_singleton H p ih =>
    rw [of_concat, List.filterMap_append, ← ih, pass]
    cases hs : p.stored? with
    | some x =>
      have ht : p.taken? = none := by
        rw [Passage.taken?, (Passage.stored?_eq_some.mp hs).1]
      simp [ht, accept]
    | none => cases ht : p.taken? <;> simp [ht, Traffic.handOut]

/-- What calls came back with agrees with the traffic: a call has stored its value if it says
so and then only once, and the same holds of taking. -/
structure Replied (t : Traffic α) (m : Monitor α) (calls : List (PoolCall α)) : Prop where
  accepted : ∀ {i : Nat} {x : Tagged α}, (i, x) ∈ t.accepted ↔
    m.threads[i]?.bind PoolThread.outcome? = some .stored ∧
      calls[i]?.bind PoolCall.value? = some x
  accepted_once : (t.accepted.map (·.1)).Nodup
  handed : ∀ {i : Nat} {x : Tagged α}, (∃ g ∈ t.handed, g.thread = i ∧ g.value = x) ↔
    m.threads[i]?.bind PoolThread.outcome? = some (.taken (some x))
  handed_once : (t.handed.map (·.thread)).Nodup
  call : ∀ g ∈ t.handed, calls[g.thread]? = some g.call

end Traffic

/-! ### Every run -/

namespace Monitor

variable {n : Nat} {m : Monitor α} {calls : List (PoolCall α)} {H : List (Passage α)}

/-- **What every run hands out and keeps.** -/
theorem Recorded.sound (h : Recorded n m calls H) : (Traffic.of H).Sound m.pool.entries := by
  induction h with
  | start => exact Traffic.sound_empty
  | call _ c ih => exact ih
  | @step m m' calls H _ i target hs ih =>
    have hm := move_of_advance hs
    generalize m.passage? i = P at hm ⊢
    cases P with
    | none => simpa only [Option.toList_none, List.append_nil, hm.pool_eq] using ih
    | some p =>
      rw [Option.toList_some, Traffic.of_concat]
      cases hm with
      | enter | resume => exact ih.pass

/-- Passages that say something about distinct threads do so in a list without repetition. -/
theorem Kept.nodup_filterMap (h : Kept n m calls H) {β : Type} {f : Passage α → Option β}
    (g : β → Nat) (hf : ∀ {p b}, f p = some b → p.reply?.isSome = true ∧ g b = p.thread) :
    ((H.filterMap f).map g).Nodup := by
  refine h.replied.sublist ?_
  clear h
  induction H with
  | nil => exact .slnil
  | cons p H ih =>
    cases hp : f p with
    | none =>
      rw [List.filterMap_cons_none hp]
      refine ih.trans ((List.Sublist.filter _ (List.sublist_cons_self ..)).map _)
    | some b =>
      obtain ⟨hsome, hb⟩ := hf hp
      rw [List.filterMap_cons_some hp, List.filter_cons, if_pos hsome, List.map_cons,
        List.map_cons, hb]
      exact ih.cons_cons _

/-- **Threads are told what has gone through the pool.** -/
theorem Recorded.replied (h : Recorded n m calls H) : (Traffic.of H).Replied m calls := by
  have hk := h.kept
  have hhanded : ∀ {i c x}, (∃ g ∈ (Traffic.of H).handed, (g.thread, g.call, g.value) = (i, c, x)) ↔
      ∃ p ∈ H, p.thread = i ∧ p.call = c ∧ p.reply? = some (.taken (some x)) := by
    intro i c x
    rw [← List.mem_map (f := fun g : Handout α => (g.thread, g.call, g.value)), Traffic.handed_of,
      List.mem_filterMap]
    simp [Passage.taken?_eq_some, and_comm, and_assoc]
  constructor
  · intro i x
    rw [Traffic.accepted_of, List.mem_filterMap, hk.reply]
    constructor
    · rintro ⟨p, hp, hx⟩
      obtain ⟨y, hy, he⟩ := Option.map_eq_some_iff.mp hx
      obtain ⟨rfl, rfl⟩ := Prod.mk.inj he
      obtain ⟨hr, hv⟩ := Passage.stored?_eq_some.mp hy
      refine ⟨⟨p, hp, rfl, hr⟩, ?_⟩
      rw [(hk.passed p hp).1]
      exact hv
    · rintro ⟨⟨p, hp, rfl, hr⟩, hv⟩
      rw [(hk.passed p hp).1] at hv
      exact ⟨p, hp, by rw [Passage.stored?_eq_some.mpr ⟨hr, hv⟩, Option.map_some]⟩
  · rw [Traffic.accepted_of]
    refine hk.nodup_filterMap _ fun hx => ?_
    obtain ⟨y, hy, rfl⟩ := Option.map_eq_some_iff.mp hx
    exact ⟨by rw [(Passage.stored?_eq_some.mp hy).1]; rfl, rfl⟩
  · intro i x
    rw [hk.reply]
    constructor
    · rintro ⟨g, hg, rfl, rfl⟩
      obtain ⟨p, hp, hi, -, hr⟩ := hhanded.mp ⟨g, hg, rfl⟩
      exact ⟨p, hp, hi, hr⟩
    · rintro ⟨p, hp, rfl, hr⟩
      obtain ⟨g, hg, he⟩ := hhanded.mpr ⟨p, hp, rfl, rfl, hr⟩
      obtain ⟨hi, he⟩ := Prod.mk.inj he
      exact ⟨g, hg, hi, (Prod.mk.inj he).2⟩
  · have hmap : (Traffic.of H).handed.map (·.thread) =
        ((Traffic.of H).handed.map fun g => (g.thread, g.call, g.value)).map (·.1) := by
      rw [List.map_map]
      rfl
    rw [hmap, Traffic.handed_of]
    refine hk.nodup_filterMap _ fun hx => ?_
    obtain ⟨y, hy, rfl⟩ := Option.map_eq_some_iff.mp hx
    exact ⟨by rw [Passage.taken?_eq_some.mp hy]; rfl, rfl⟩
  · intro g hg
    obtain ⟨p, hp, hi, hc, -⟩ := hhanded.mp ⟨g, hg, rfl⟩
    rw [← hi, ← hc]
    exact (hk.passed p hp).1

end Monitor

end Dataflow
