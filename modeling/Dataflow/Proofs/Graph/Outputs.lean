import Dataflow.Proofs.Engine.FanOut
import Dataflow.Proofs.Engine.Frame
import Dataflow.Proofs.Graph.Stock
import Dataflow.Proofs.Pool.Fifo

/-!
# Publishing and reading by hand

A value can be published at a node as if the node had computed it, and what was published
towards a successor can be read again. All copies that this takes are made first, so a copy
that fails stops it before anything has happened. After that the outlets are served one after
another, and each of them may be open or closed on its own: those before the first that is
closed (`Graph.openOutlets`) get their entries, and the others are left as they are
(`Graph.pushAll_outlets`).

An entry may be a mark that a run came to nothing here. Reading passes over marks and takes
them away, up to the first entry with data (`Pool.popData_of_data`) or altogether
(`Pool.popData_of_marks`).
-/

namespace Dataflow

variable {α : Type}

/-! ### Reading one pool -/

namespace Pool

/-- **A pool with other entries**, which is as it was apart from them. -/
structure Restocked (p : Pool α) (entries : List (Tagged α)) (p' : Pool α) : Prop where
  entries : p'.entries = entries
  capacity : p'.capacity = p.capacity
  isClosed : p'.isClosed = p.isClosed
  starved : p'.starved = p.starved

theorem Restocked.trans {p p' p'' : Pool α} {xs ys : List (Tagged α)} (h : p.Restocked xs p')
    (h' : p'.Restocked ys p'') : p.Restocked ys p'' :=
  ⟨h'.entries, h'.capacity.trans h.capacity, h'.isClosed.trans h.isClosed,
    h'.starved.trans h.starved⟩

/-- A pool with a free slot stores what it is given behind all others. -/
theorem restocked_store {p : Pool α} (x : Tagged α) (h : p.entries.length < p.capacity) :
    p.Restocked (p.entries ++ [x]) (p.store x) := by
  obtain ⟨hentries, hcapacity, hclosed, hstarved⟩ := p.store_spec x h
  exact ⟨hentries, hcapacity, hclosed, hstarved⟩

theorem tryPop_of_cons {p : Pool α} {x : Tagged α} {xs : List (Tagged α)}
    (h : p.entries = x :: xs) : ∃ p', p.tryPop = some (x, p') ∧ p.Restocked xs p' := by
  obtain ⟨⟨y, p'⟩, hy⟩ := Option.isSome_iff_exists.mp
    (takeAt_isSome.mpr (show 0 < p.entries.length by simp [h]))
  obtain ⟨hget, hentries, hrest⟩ := takeAt_eq_some hy
  rw [h] at hget hentries
  obtain rfl := Option.some.inj hget
  exact ⟨p', hy, hentries, hrest.1, hrest.2.1, hrest.2.2⟩

variable {p : Pool (Entry α)} {marks rest : List (Tagged (Entry α))}

/-- Marks are taken one after another. -/
theorem popData_go_of_marks (hm : ∀ y ∈ marks, y.payload = none) (h : p.entries = marks ++ rest)
    (fuel : Nat) : ∃ p', popData.go (marks.length + fuel) p = popData.go fuel p' ∧
      p.Restocked rest p' := by
  induction marks generalizing p with
  | nil => exact ⟨p, by rw [List.length_nil, Nat.zero_add], h, rfl, rfl, rfl⟩
  | cons y marks ih =>
    obtain ⟨hy, hm⟩ := List.forall_mem_cons.mp hm
    obtain ⟨q, hpop, hq⟩ := tryPop_of_cons h
    obtain ⟨p', hgo, hp'⟩ := ih hm hq.entries
    refine ⟨p', ?_, hq.trans hp'⟩
    obtain ⟨run, e⟩ := y
    obtain rfl : e = none := hy
    rw [List.length_cons, Nat.add_right_comm, popData.go]
    simp only [hpop]
    exact hgo

/-- **The first entry with data is read**, and goes with the marks before it. -/
theorem popData_of_data {run : ObjectId} {x : α} (hm : ∀ y ∈ marks, y.payload = none)
    (h : p.entries = marks ++ ⟨run, some x⟩ :: rest) :
    ∃ p', p.popData = (some ⟨run, x⟩, p') ∧ p.Restocked rest p' := by
  obtain ⟨q, hgo, hq⟩ := popData_go_of_marks hm h (rest.length + 1)
  obtain ⟨p', hpop, hp'⟩ := tryPop_of_cons hq.entries
  refine ⟨p', ?_, hq.trans hp'⟩
  rw [popData, ← p.length_entries, h, List.length_append, List.length_cons, hgo, popData.go]
  simp only [hpop]

/-- **Marks alone give nothing**, and all of them go. -/
theorem popData_of_marks (hm : ∀ y ∈ p.entries, y.payload = none) :
    ∃ p', p.popData = (none, p') ∧ p.Restocked [] p' := by
  obtain ⟨p', hgo, hp'⟩ := popData_go_of_marks hm (List.append_nil _).symm 0
  refine ⟨p', ?_, hp'⟩
  rw [popData, ← p.length_entries, ← Nat.add_zero p.entries.length, hgo, popData.go]

end Pool

/-! ### What each successor gets -/

/-- What the successor at a position gets of a value that goes to some successors: the first
of them gets the value, and each of the others a copy. -/
def Payload.portion [Payload α] (x : α) (successors : Nat) : Nat → Except CopyFailure α
  | 0 => .ok (after x (successors - 1))
  | k + 1 => attempt x k

/-- There is something for each of the successors. -/
def Payload.Shareable [Payload α] (x : α) (successors : Nat) : Prop :=
  ∀ k < successors, ∃ y, portion x successors k = .ok y

/-- If there is not, some successor is the first that a copy is missing for. -/
theorem Payload.exists_of_not_shareable [Payload α] {x : α} {m : Nat} (h : ¬ Shareable x m) :
    ∃ k e, k < m ∧ (∀ j < k, ∃ y, portion x m j = .ok y) ∧ portion x m k = .error e := by
  have hex : ∃ k, k < m ∧ ¬ ∃ y, portion x m k = .ok y := by
    simpa only [Shareable, not_forall, exists_prop] using h
  classical
  obtain ⟨hlt, hnone⟩ := Nat.find_spec hex
  have hbefore : ∀ j < Nat.find hex, ∃ y, portion x m j = .ok y := fun j hj =>
    not_not.mp fun hno => Nat.find_min hex hj ⟨hj.trans hlt, hno⟩
  cases he : portion x m (Nat.find hex) with
  | ok y => exact absurd ⟨y, he⟩ hnone
  | error e => exact ⟨_, e, hlt, hbefore, he⟩

section FanOut

variable [Payload α] {n : Node α} {x : α}

/-- If there is something for each successor, that is what the entries carry. -/
theorem Node.fanOut_of_shareable (v : NodeId)
    (h : Payload.Shareable x n.successors.length) :
    ∃ entries, n.fanOut v (some x) = .ok entries ∧ n.successors.length ≤ entries.length ∧
      ∀ {k e y}, entries[k]? = some e → Payload.portion x n.successors.length k = .ok y →
        e = some y := by
  obtain ⟨ys, hc, hlen, hget⟩ := Payload.copies_of_ok
    (m := n.successors.length - 1) (x := x) fun k hk => h (k + 1) (Nat.add_lt_of_lt_sub hk)
  refine ⟨some (Payload.after x (n.successors.length - 1)) :: ys.map some,
    by simp only [fanOut, hc], ?_, fun {k e y} he hy => ?_⟩
  · simp only [List.length_cons, List.length_map, hlen]
    omega
  · cases k with
    | zero =>
      rw [← Option.some.inj he, ← Except.ok.inj hy]
    | succ k =>
      rw [List.getElem?_cons_succ, List.getElem?_map] at he
      obtain ⟨z, hz, rfl⟩ := Option.map_eq_some_iff.mp he
      rw [Except.ok.inj ((hget k z hz).symm.trans hy)]

/-- The first successor that a copy is missing for says what is reported. -/
theorem Node.fanOut_of_portion_error (v : NodeId) {k : Nat} {e : CopyFailure}
    (hk : k < n.successors.length)
    (hbefore : ∀ j < k, ∃ y, Payload.portion x n.successors.length j = .ok y)
    (he : Payload.portion x n.successors.length k = .error e) :
    n.fanOut v (some x) = .error (.copyFailed v e.report) := by
  cases k with
  | zero => cases he
  | succ k =>
    have hc := Payload.copies_of_error (m := n.successors.length - 1)
      (Nat.lt_sub_of_add_lt hk) (fun j hj => hbefore (j + 1) (Nat.succ_lt_succ hj)) he
    rcases hcs : Payload.copies (n.successors.length - 1) x with ⟨c, x'⟩
    rw [hcs] at hc
    obtain rfl : c = .error e := hc
    simp only [fanOut, hcs]

end FanOut

/-! ### Serving one outlet after another -/

namespace Graph

variable {g g' g'' : Graph α} {c : Channel} {cs cs' : List Channel} {v : NodeId} {run : ObjectId}

/-- Nobody can put anything into the channel any more. -/
def isClosedAt (g : Graph α) (c : Channel) : Bool :=
  (g.pool? c).any (·.isClosed)

/-- The outlets of a node before the first that is closed. -/
def openOutlets (g : Graph α) (v : NodeId) : List Channel :=
  (g.outlets v).takeWhile (!g.isClosedAt ·)

/-- **Nothing has changed but what lies in some channels.** -/
structure OnlyAt (g : Graph α) (cs : List Channel) (g' : Graph α) : Prop where
  frame : g.Frame g'
  tally : ∀ u, g'.tally u = g.tally u
  pool : ∀ {c}, c ∉ cs → g'.pool? c = g.pool? c

theorem OnlyAt.refl (g : Graph α) (cs : List Channel) : g.OnlyAt cs g :=
  ⟨.refl g, fun _ => rfl, fun _ => rfl⟩

theorem OnlyAt.trans (h : g.OnlyAt cs g') (h' : g'.OnlyAt cs' g'') : g.OnlyAt (cs ++ cs') g'' where
  frame := h.frame.trans h'.frame
  tally u := (h'.tally u).trans (h.tally u)
  pool hc := by
    obtain ⟨hc, hc'⟩ := List.mem_append.not.mp hc |> not_or.mp
    rw [h'.pool hc', h.pool hc]

theorem onlyAt_setPool {p p' : Pool (Entry α)} (hc : g.Carries c) (hp : g.pool? c = some p) :
    g.OnlyAt [c] (g.setPool c p') where
  frame := (Used.unused.setPool c p').frame
  tally := tally_setPool c p'
  pool hc' := by
    rw [pool?_setPool p' hc (by rw [hp]; rfl), if_neg (List.mem_singleton.not.mp hc')]

/-- A channel takes entries at once. -/
structure Takes (g : Graph α) (c : Channel) : Prop where
  carries : g.Carries c
  pool : ∃ p, g.pool? c = some p ∧ p.isClosed = false ∧ p.entries.length < p.capacity

/-- **Channels that take entries get one each**, and it goes on with the others. -/
theorem pushAll_append (run : ObjectId) {before : Deliveries α}
    (hnd : (before.map (·.1)).Nodup) (h : ∀ d ∈ before, g.Takes d.1) (rest : Deliveries α) :
    ∃ g', g.pushAll run (before ++ rest) = g'.pushAll run rest ∧
      g.OnlyAt (before.map (·.1)) g' ∧
      ∀ c e p, (c, e) ∈ before → g.pool? c = some p →
        ∃ p', g'.pool? c = some p' ∧ p.Restocked (p.entries ++ [⟨run, e⟩]) p' := by
  induction before generalizing g with
  | nil => exact ⟨g, rfl, .refl g _, nofun⟩
  | cons d before ih =>
    obtain ⟨c₀, e₀⟩ := d
    obtain ⟨hnot, hnd⟩ := List.nodup_cons.mp hnd
    obtain ⟨⟨hcarries, p₀, hp₀, hopen, hroom⟩, h⟩ := List.forall_mem_cons.mp h
    have hone : g.OnlyAt [c₀] (g.setPool c₀ (p₀.store ⟨run, e₀⟩)) := onlyAt_setPool hcarries hp₀
    -- the channels that follow are other ones, so they are found as they were
    have hne : ∀ d ∈ before, d.1 ∉ [c₀] := by
      intro d hd he
      have hmem : d.1 ∈ before.map (·.1) := List.mem_map_of_mem hd
      exact hnot (List.mem_singleton.mp he ▸ hmem)
    have halike : g.Alike (g.setPool c₀ (p₀.store ⟨run, e₀⟩)) := .setPool ..
    obtain ⟨g', hpush, honly, hpools⟩ := ih hnd fun d hd =>
      ⟨halike.carries.mpr (h d hd).carries, by rw [hone.pool (hne d hd)]; exact (h d hd).pool⟩
    refine ⟨g', ?_, hone.trans honly, fun c e p hmem hp => ?_⟩
    · rw [List.cons_append, pushAll]
      simp only [hp₀, Option.bind_some, (Pool.push_of_room _ hopen hroom).1]
      exact hpush
    · rcases List.mem_cons.mp hmem with he | hmem
      · obtain ⟨rfl, rfl⟩ := Prod.mk.inj he
        obtain rfl := Option.some.inj (hp₀.symm.trans hp)
        refine ⟨_, ?_, Pool.restocked_store _ hroom⟩
        rw [honly.pool hnot, pool?_setPool _ hcarries (by rw [hp₀]; rfl), if_pos rfl]
      · exact hpools c e p hmem (by rw [hone.pool (hne _ hmem), hp])

/-- A closed channel ends the publication, as does the end of the list. -/
theorem pushAll_of_closed {rest : List Channel} {entries : List (Entry α)}
    (hlen : rest.length ≤ entries.length)
    (h : ∀ c ∈ rest.head?, ∃ p, g.pool? c = some p ∧ p.isClosed = true ∧ 0 < p.capacity) :
    g.pushAll run (rest.zip entries) =
      (if rest = [] then .ok () else .error (.scheduling .shutDown), g) := by
  cases rest with
  | nil => rfl
  | cons c rest =>
    obtain ⟨p, hp, hclosed, hpos⟩ := h c rfl
    obtain ⟨e, entries, rfl⟩ := List.exists_cons_of_length_pos (Nat.zero_lt_of_lt hlen)
    have hpush : p.push ⟨run, e⟩ = some (.error ⟨.closed, ⟨run, e⟩⟩) := by
      simp [Pool.push, Pool.pushWaits, Pool.tryPush, hclosed, Nat.ne_of_gt hpos]
    rw [if_neg (List.cons_ne_nil c rest), List.zip_cons_cons, pushAll]
    simp only [hp, Option.bind_some, hpush]

/-- A push waits exactly if the pool is open and full. -/
theorem pushWaits_of_pos {p : Pool (Entry α)} (hpos : 0 < p.capacity) :
    p.pushWaits = true ↔ p.isClosed = false ∧ p.entries.length = p.capacity := by
  rw [p.pushWaits_iff, Fifo.refusal?]
  simp only [Pool.view, Nat.ne_of_gt hpos, if_false]
  by_cases hc : p.isClosed = true
  · simp [hc]
  · by_cases hfull : p.entries.length = p.capacity <;> simp [hc, hfull]

/-- The first pool that does not take an entry at once makes the caller wait, unless it is
closed. -/
theorem any_find?_pushWaits (h : ∀ c ∈ cs, ∃ p, g.pool? c = some p ∧ 0 < p.capacity) :
    ((cs.filterMap g.pool?).find? fun p => p.pushWaits || p.isClosed).any (·.pushWaits) = true ↔
      ∃ c ∈ cs.takeWhile (!g.isClosedAt ·), ∃ p, g.pool? c = some p ∧
        p.entries.length = p.capacity := by
  induction cs with
  | nil => simp
  | cons c cs ih =>
    obtain ⟨⟨p, hp, hpos⟩, h⟩ := List.forall_mem_cons.mp h
    have hwaits := pushWaits_of_pos hpos
    have hat : g.isClosedAt c = p.isClosed := by rw [isClosedAt, hp, Option.any_some]
    rw [List.filterMap_cons_some hp, List.find?_cons, List.takeWhile_cons, hat]
    cases hclosed : p.isClosed with
    | true =>
      have hgo : p.pushWaits = false := by simpa [hclosed] using hwaits
      simp [hgo]
    | false =>
      by_cases hfull : p.entries.length = p.capacity
      · have hstop : p.pushWaits = true := hwaits.mpr ⟨hclosed, hfull⟩
        simp [hstop, hp, hfull]
      · have hgo : p.pushWaits = false := by simpa [hfull] using hwaits
        rw [hgo]
        refine (ih h).trans ?_
        simp [hp, hfull]

/-- A publication has to wait exactly if an outlet before the first closed one is full. -/
theorem outputWaits_iff (h : ∀ c ∈ g.outlets v, ∃ p, g.pool? c = some p ∧ 0 < p.capacity) :
    g.outputWaits v = true ↔ ∃ c ∈ g.openOutlets v, ∃ p, g.pool? c = some p ∧
      p.entries.length = p.capacity := by
  rw [openOutlets, ← any_find?_pushWaits h, outputWaits]
  cases ((g.outlets v).filterMap g.pool?).find? fun p => p.pushWaits || p.isClosed <;> simp

/-- The outlets before the first closed one take entries, if nobody has to wait. -/
theorem takes_of_mem_openOutlets
    (hpools : ∀ c ∈ g.outlets v, ∃ p, g.pool? c = some p ∧ 0 < p.capacity)
    (hwaits : g.outputWaits v = false) (hc : c ∈ g.openOutlets v) : g.Takes c := by
  have hout : c ∈ g.outlets v := (List.takeWhile_prefix _).subset hc
  obtain ⟨p, hp, -⟩ := hpools c hout
  have hopen : p.isClosed = false := by
    have := List.mem_takeWhile_imp hc
    simpa [isClosedAt, hp] using this
  have hroom : p.entries.length ≠ p.capacity := fun hfull => by
    rw [(outputWaits_iff hpools).mpr ⟨c, hc, p, hp, hfull⟩] at hwaits
    cases hwaits
  exact ⟨carries_of_mem_outlets hout, p, hp, hopen, Nat.lt_of_le_of_ne p.length_entries_le hroom⟩

theorem openOutlets_eq_iff :
    g.openOutlets v = g.outlets v ↔ ∀ c ∈ g.outlets v, g.isClosedAt c = false := by
  simp [openOutlets, List.takeWhile_eq_self_iff]

/-- **The outlets before the first closed one are served**, and nothing else happens. -/
theorem pushAll_outlets (hg : g.Frozen) (run : ObjectId)
    (hpools : ∀ c ∈ g.outlets v, ∃ p, g.pool? c = some p ∧ 0 < p.capacity)
    (hwaits : g.outputWaits v = false) {entries : List (Entry α)}
    (hlen : (g.outlets v).length ≤ entries.length) :
    ∃ g', g.pushAll run ((g.outlets v).zip entries) =
        (if g.openOutlets v = g.outlets v then .ok () else .error (.scheduling .shutDown), g') ∧
      g.OnlyAt (g.openOutlets v) g' ∧
      ∀ {k : Nat} {c e p}, (g.openOutlets v)[k]? = some c → entries[k]? = some e →
        g.pool? c = some p →
        ∃ p', g'.pool? c = some p' ∧ p.Restocked (p.entries ++ [⟨run, e⟩]) p' := by
  have hsplit : g.openOutlets v ++ (g.outlets v).dropWhile (!g.isClosedAt ·) = g.outlets v :=
    List.takeWhile_append_dropWhile
  have hhead := List.head?_dropWhile_not (!g.isClosedAt ·) (g.outlets v)
  generalize (g.outlets v).dropWhile (!g.isClosedAt ·) = rest at hsplit hhead
  have hnd : (g.openOutlets v ++ rest).Nodup := hsplit ▸ hg.nodup_outlets v
  have hend : rest = [] ↔ g.openOutlets v = g.outlets v := by
    rw [← hsplit, List.self_eq_append_right]
  -- the entries are shared out between the open outlets and the rest
  rw [← hsplit, List.length_append] at hlen
  obtain ⟨es, fs, rfl, hes⟩ : ∃ es fs, entries = es ++ fs ∧
      es.length = (g.openOutlets v).length :=
    ⟨_, _, (List.take_append_drop (g.openOutlets v).length entries).symm,
      List.length_take_of_le (Nat.le_of_add_right_le hlen)⟩
  have hzip : (g.outlets v).zip (es ++ fs) = (g.openOutlets v).zip es ++ rest.zip fs := by
    rw [← hsplit, List.zip_append hes.symm]
  have hfst : ((g.openOutlets v).zip es).map (·.1) = g.openOutlets v :=
    List.map_fst_zip (Nat.le_of_eq hes.symm)
  obtain ⟨g', hpush, honly, hgains⟩ := g.pushAll_append run
    (by rw [hfst]; exact (List.nodup_append.mp hnd).1)
    (fun d hd => takes_of_mem_openOutlets hpools hwaits (List.of_mem_zip hd).1) (rest.zip fs)
  rw [hfst] at honly
  have hrest : g'.pushAll run (rest.zip fs) =
      (if rest = [] then .ok () else .error (.scheduling .shutDown), g') := by
    refine pushAll_of_closed (by rw [List.length_append, hes] at hlen; omega) fun c hc => ?_
    have hmem : c ∈ rest := List.mem_of_mem_head? hc
    obtain ⟨p, hp, hpos⟩ := hpools c (hsplit ▸ List.mem_append_right _ hmem)
    have hnot : c ∉ g.openOutlets v := fun ho => (List.nodup_append.mp hnd).2.2 c ho c hmem rfl
    rw [Option.mem_def.mp hc] at hhead
    exact ⟨p, (honly.pool hnot).trans hp, by simpa [isClosedAt, hp] using hhead, hpos⟩
  refine ⟨g', ?_, honly, fun {k c e p} hc he hp => hgains c e p ?_ hp⟩
  · rw [hzip, hpush, hrest]
    simp only [hend]
  · have hlt : k < es.length := hes ▸ (List.getElem?_eq_some_iff.mp hc).1
    rw [List.getElem?_append_left hlt] at he
    exact List.mem_of_getElem? (List.getElem?_zip_eq_some.mpr ⟨hc, he⟩)

/-- At the position of an outlet stands the successor that it leads to. -/
theorem successor_of_openOutlet {n : Node α} {k : Nat} {u : NodeId} (hn : g.nodes[v]? = some n)
    (hc : (g.openOutlets v)[k]? = some (.edge v u)) : n.successors[k]? = some u := by
  obtain ⟨rest, hrest⟩ : g.openOutlets v <+: g.outlets v := List.takeWhile_prefix _
  have hk : (g.outlets v)[k]? = some (.edge v u) := by
    rw [← hrest, List.getElem?_append_left (List.getElem?_eq_some_iff.mp hc).1, hc]
  rw [outlets, successors_of_node hn, List.getElem?_map] at hk
  obtain ⟨w, hw, he⟩ := Option.map_eq_some_iff.mp hk
  rw [hw, (Channel.edge.inj he).2]

/-- What was taken out of a pool is the only thing that has changed. -/
theorem popOutput_of_popData {n : Node α} {k : Nat} {u : NodeId} {p p' : Pool (Entry α)}
    {answer : Option (Tagged α)} (hn : g.nodes[v]? = some n) (hu : n.successors[k]? = some u)
    (hp : g.pool? (.edge v u) = some p) (hpop : p.popData = (answer, p')) :
    (g.popOutput v k).1 = answer ∧ g.OnlyAt [.edge v u] (g.popOutput v k).2 ∧
      (g.popOutput v k).2.pool? (.edge v u) = some p' := by
  have hsucc : (g.successors v)[k]? = some u := by rw [successors_of_node hn, hu]
  have hcarries : g.Carries (.edge v u) := List.mem_of_getElem? hsucc
  have hread : g.popOutput v k = (answer, g.setPool (.edge v u) p') := by
    simp only [popOutput, branch?, hsucc, hp, Option.isSome_some, if_true, hpop]
  rw [hread]
  refine ⟨rfl, onlyAt_setPool hcarries hp, ?_⟩
  rw [pool?_setPool p' hcarries (by rw [hp]; rfl), if_pos rfl]

/-! ### Nodes of a frozen graph -/

section Publishing

variable [Payload α] {n : Node α}

/-- **What becomes of a value that is published**, if there is something for each successor. -/
structure Published (g : Graph α) (v : NodeId) (n : Node α) (x : Tagged α)
    (result : Except Error Unit) (g' : Graph α) : Prop where
  /-- Each outlet before the first closed one gets an entry with what is for the successor
  there. -/
  pool : ∀ {k c p y}, (g.openOutlets v)[k]? = some c → g.pool? c = some p →
    Payload.portion x.payload n.successors.length k = .ok y →
    ∃ p', g'.pool? c = some p' ∧ p.Restocked (p.entries ++ [⟨x.objectId, some y⟩]) p'
  /-- The other pools, and all else, are as they were. -/
  only : g.OnlyAt (g.openOutlets v) g'
  ok_iff : result = .ok () ↔ ∀ c ∈ g.outlets v, g.isClosedAt c = false
  closed : (∃ c ∈ g.outlets v, g.isClosedAt c = true) → result = .error (.scheduling .shutDown)

/-- **How values come out of a node by hand**: they are published towards its successors, and
are read where they are waiting for one of them. -/
structure PassesOn (g : Graph α) (v : NodeId) (n : Node α) : Prop where
  /-- Every outlet has a pool with slots. -/
  pools : ∀ c ∈ g.outlets v, ∃ p, g.pool? c = some p ∧ 0 < p.capacity
  /-- Publishing has to wait where a pool is full that comes before all closed ones. -/
  waits_iff : g.outputWaits v = true ↔ ∃ c ∈ g.openOutlets v, ∃ p, g.pool? c = some p ∧
    p.entries.length = p.capacity
  /-- If a copy fails, nothing is published, and nobody has to wait. The first copy that fails
  says why. -/
  spoiled : ∀ {x : Tagged α}, ¬ Payload.Shareable x.payload n.successors.length →
    ∃ k e, k < n.successors.length ∧
      (∀ j < k, ∃ y, Payload.portion x.payload n.successors.length j = .ok y) ∧
      Payload.portion x.payload n.successors.length k = .error e ∧
      g.pushOutput v n x = (.error (.execution (.copyFailed v e.report)), g)
  published : ∀ {x : Tagged α}, g.outputWaits v = false →
    Payload.Shareable x.payload n.successors.length →
    g.Published v n x (g.pushOutput v n x).1 (g.pushOutput v n x).2
  /-- Reading takes the first entry with data, and the marks before it. -/
  read : ∀ {k u p marks run y rest}, n.successors[k]? = some u → g.pool? (.edge v u) = some p →
    (∀ m ∈ marks, m.payload = none) → p.entries = marks ++ ⟨run, some y⟩ :: rest →
    (g.popOutput v k).1 = some ⟨run, y⟩ ∧ g.OnlyAt [.edge v u] (g.popOutput v k).2 ∧
      ∃ p', (g.popOutput v k).2.pool? (.edge v u) = some p' ∧ p.Restocked rest p'
  /-- Where there are only marks it takes all of them, and has nothing to give. -/
  exhausted : ∀ {k u p}, n.successors[k]? = some u → g.pool? (.edge v u) = some p →
    (∀ m ∈ p.entries, m.payload = none) →
    (g.popOutput v k).1 = none ∧ g.OnlyAt [.edge v u] (g.popOutput v k).2 ∧
      ∃ p', (g.popOutput v k).2.pool? (.edge v u) = some p' ∧ p.Restocked [] p'
  /-- What is published behind nothing but marks is what is read next. -/
  readBack : ∀ {x : Tagged α} {k u p y}, g.outputWaits v = false →
    Payload.Shareable x.payload n.successors.length →
    (g.openOutlets v)[k]? = some (.edge v u) → g.pool? (.edge v u) = some p →
    (∀ m ∈ p.entries, m.payload = none) →
    Payload.portion x.payload n.successors.length k = .ok y →
    ((g.pushOutput v n x).2.popOutput v k).1 = some ⟨x.objectId, y⟩

namespace WellFormed

omit [Payload α] in
theorem pool_of_outlet (h : g.WellFormed) (hf : g.isFrozen = true) :
    ∀ c ∈ g.outlets v, ∃ p, g.pool? c = some p ∧ 0 < p.capacity := by
  intro c hc
  obtain ⟨plan, hplan⟩ := Option.isSome_iff_exists.mp hf
  obtain ⟨p, hp, hcap⟩ := h.pool_of_carries hplan (carries_of_mem_outlets hc)
  obtain ⟨-, -, -, hpos, -⟩ := h.planned hplan
  exact ⟨p, hp, hcap ▸ hpos⟩

/-- A frozen graph has a pool for each successor, so a publication gets as far as the copies. -/
theorem pushOutput_eq (h : g.WellFormed) (hf : g.isFrozen = true) (hn : g.nodes[v]? = some n)
    (x : Tagged α) : g.pushOutput v n x =
      match n.fanOut v (some x.payload) with
      | .error e => (.error (.execution e), g)
      | .ok entries => g.pushAll x.objectId ((g.outlets v).zip entries) := by
  obtain ⟨plan, hplan⟩ := Option.isSome_iff_exists.mp hf
  obtain ⟨s, hs⟩ := h.exists_station hn
  have hsize : s.outgoing.size = n.successors.length := by
    simpa using congrArg List.length (h.outgoing_of_plan hplan hs hn)
  rw [pushOutput, hs, Option.map_some, Option.getD_some]
  exact if_neg (not_not_intro hsize)

/-- **A value with something for each successor** goes to the outlets before the first closed
one. -/
theorem published (h : g.WellFormed) (hf : g.isFrozen = true) (hn : g.nodes[v]? = some n)
    {x : Tagged α} (hwaits : g.outputWaits v = false)
    (hall : Payload.Shareable x.payload n.successors.length) :
    g.Published v n x (g.pushOutput v n x).1 (g.pushOutput v n x).2 := by
  obtain ⟨entries, hfan, hlen, hget⟩ := n.fanOut_of_shareable v hall
  have hout : (g.outlets v).length ≤ entries.length := by
    rwa [outlets, List.length_map, successors_of_node hn]
  obtain ⟨g', hpush, honly, hpool⟩ := pushAll_outlets (h.frozen hf) x.objectId
    (h.pool_of_outlet hf) hwaits hout
  rw [h.pushOutput_eq hf hn, hfan]
  dsimp only
  rw [hpush]
  refine ⟨fun {k c p y} hc hp hy => ?_, honly, ?_, ?_⟩
  · have hk : k < entries.length := (List.getElem?_eq_some_iff.mp hc).1.trans_le
      ((List.takeWhile_prefix _).length_le.trans hout)
    obtain ⟨p', hp', hstock⟩ := hpool hc (List.getElem?_eq_getElem hk) hp
    rw [hget (List.getElem?_eq_getElem hk) hy] at hstock
    exact ⟨p', hp', hstock⟩
  · rw [← openOutlets_eq_iff]
    split
    · next he => exact iff_of_true rfl he
    · next he => exact iff_of_false (by simp) he
  · rintro ⟨c, hc, hclosed⟩
    have hne : g.openOutlets v ≠ g.outlets v := fun he => by
      rw [openOutlets_eq_iff.mp he c hc] at hclosed
      cases hclosed
    rw [if_neg hne]

end WellFormed

/-- **A publication stops at the first closed outlet**, and before anything has happened if a
copy fails; what it has published can be read, once the marks before it are gone. -/
theorem Raised.passes_on (h : g.Raised) (hf : g.isFrozen = true) (hn : g.nodes[v]? = some n) :
    g.PassesOn v n := by
  have hw := h.wellFormed
  have hpools := hw.pool_of_outlet (v := v) hf
  refine ⟨hpools, outputWaits_iff hpools, ?_, hw.published hf hn, ?_, ?_, ?_⟩
  · intro x hnot
    obtain ⟨k, e, hk, hbefore, he⟩ := Payload.exists_of_not_shareable hnot
    refine ⟨k, e, hk, hbefore, he, ?_⟩
    rw [hw.pushOutput_eq hf hn, n.fanOut_of_portion_error v hk hbefore he]
  · intro k u p marks run y rest hu hp hm he
    obtain ⟨p', hpop, hp'⟩ := Pool.popData_of_data hm he
    obtain ⟨hanswer, honly, hpool⟩ := popOutput_of_popData hn hu hp hpop
    exact ⟨hanswer, honly, p', hpool, hp'⟩
  · intro k u p hu hp hm
    obtain ⟨p', hpop, hp'⟩ := Pool.popData_of_marks hm
    obtain ⟨hanswer, honly, hpool⟩ := popOutput_of_popData hn hu hp hpop
    exact ⟨hanswer, honly, p', hpool, hp'⟩
  · intro x k u p y hwaits hall hc hp hm hy
    have hpub := hw.published hf hn hwaits hall
    obtain ⟨p', hp', hstock⟩ := hpub.pool hc hp hy
    obtain ⟨q, hpop, -⟩ := Pool.popData_of_data hm hstock.entries
    exact (popOutput_of_popData (hpub.only.frame.nodes ▸ hn) (successor_of_openOutlet hn hc)
      hp' hpop).1

end Publishing

/-! ### A fork with a closed branch -/

/-- The fork with room for two runs. A mark is waiting for the first successor, and nobody can
publish towards the second any more. -/
def damaged : Graph Fickle :=
  let g := (((fork 0).thaw.freeze 2).2.deliver 3 [(.edge 0 1, none)]).1
  g.setPool (.edge 0 2) (Pool.new 2).close

theorem raised_damaged : damaged.Raised := by
  have hfork : (fork 0).Raised :=
    (((((((Raised.empty.add "a" _).add "b" none).add "c" none).add "d" none).precede 0 1).precede
      0 2).precede 0 3).freeze 1
  have hpool : (((fork 0).thaw.freeze 2).2.deliver 3 [(.edge 0 1, none)]).1.pool? (.edge 0 2) =
      some (.new 2) := by cbv
  exact ((hfork.thaw.freeze 2).deliver 3 _).setPool hpool rfl

/-- The first successor is the only one that gets something. -/
theorem passes_on_damaged : damaged.Raised ∧ damaged.isFrozen = true ∧
    ∃ n, damaged.nodes[0]? = some n ∧ damaged.PassesOn 0 n ∧
      (damaged.pushOutput 0 n ⟨7, ⟨0, 2⟩⟩).1 = .error (.scheduling .shutDown) ∧
      ((damaged.pushOutput 0 n ⟨7, ⟨0, 2⟩⟩).2.popOutput 0 0).1 = some ⟨7, ⟨2, 2⟩⟩ ∧
      ((damaged.pushOutput 0 n ⟨7, ⟨0, 2⟩⟩).2.popOutput 0 2).1 = none := by
  have hf : damaged.isFrozen = true := by cbv
  have hn : damaged.nodes[0]? =
      some ⟨"a", some fun _ => .done (.value ⟨0, 0⟩), [], [1, 2, 3]⟩ := by cbv
  exact ⟨raised_damaged, hf, _, hn, Raised.passes_on raised_damaged hf hn, by cbv, by cbv, by cbv⟩

end Graph

end Dataflow
