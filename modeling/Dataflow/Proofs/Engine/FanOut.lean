import Mathlib
import Dataflow.Proofs.Engine.Register
import Dataflow.Proofs.Graph.WellFormed

/-!
# Fan-out

A node with several successors needs a copy of its output for each of them but the first.
An attempt at a copy may fail or panic, and may change the value, so the next attempt may
come to something else. `Payload.attempt` is what each of them comes to in turn, and
`Payload.after` what has become of the value by then. `Payload.Copied` says which attempts
are made: one after another, as many as copies are needed, and none after the first that
fails.

Whatever the attempts come to, and whether the callback was skipped, has failed or has
succeeded, an execution leaves one entry for each successor, and either all of them carry
data or none does (`Node.Distributes`). It is counted once, by hand and by a thread.
-/

namespace Dataflow

variable {α : Type} [Payload α]

/-! ### Copies -/

namespace Payload

/-- What a value has become after some attempts at a copy. -/
def after (x : α) : Nat → α
  | 0 => x
  | k + 1 => (tryCopy (after x k)).2

/-- What an attempt at a copy comes to that is made after others. -/
def attempt (x : α) (k : Nat) : Except CopyFailure α :=
  (tryCopy (after x k)).1

@[simp] theorem after_zero (x : α) : after x 0 = x := rfl

/-- The attempts after the first are the attempts on what that has left. -/
theorem after_succ (x : α) (k : Nat) : after x (k + 1) = after (tryCopy x).2 k := by
  induction k with
  | zero => rfl
  | succ k ih =>
    show (tryCopy (after x (k + 1))).2 = _
    rw [ih]
    rfl

theorem attempt_succ (x : α) (k : Nat) : attempt x (k + 1) = attempt (tryCopy x).2 k := by
  rw [attempt, after_succ, attempt]

/-- **Some copies of a value are made one after another**, up to the first attempt that
fails. -/
inductive Copied (m : Nat) (x : α) : Except CopyFailure (List α) × α → Prop where
  /-- All attempts are made, and each gives a copy. -/
  | all {ys : List α} (length : ys.length = m)
      (get : ∀ k y, ys[k]? = some y → attempt x k = .ok y) : Copied m x (.ok ys, after x m)
  /-- An attempt fails after others that have not, and is the last. -/
  | stopped {k : Nat} {e : CopyFailure} (lt : k < m)
      (before : ∀ j < k, ∃ y, attempt x j = .ok y) (failure : attempt x k = .error e) :
      Copied m x (.error e, after x (k + 1))

theorem copied (m : Nat) (x : α) : Copied m x (copies m x) := by
  induction m generalizing x with
  | zero => exact .all rfl fun k y hk => by simp at hk
  | succ m ih =>
    cases hx : tryCopy x with
    | mk first x' =>
      have hfirst : attempt x 0 = first := congrArg Prod.fst hx
      have hrest : ∀ k, attempt x (k + 1) = attempt x' k := fun k => by rw [attempt_succ, hx]
      have hafter : ∀ k, after x (k + 1) = after x' k := fun k => by rw [after_succ, hx]
      cases first with
      | error e =>
        have hc : copies (m + 1) x = (.error e, after x 1) := by
          simp only [copies, hx, hafter, after_zero]
        rw [hc]
        exact .stopped (Nat.succ_pos m) (fun j hj => absurd hj (Nat.not_lt_zero j)) hfirst
      | ok y =>
        rcases hm : copies m x' with ⟨rest, z⟩
        have h := ih x'
        rw [hm] at h
        cases h with
        | @all ys length get =>
          have hc : copies (m + 1) x = (.ok (y :: ys), after x (m + 1)) := by
            simp only [copies, hx, hm, hafter]
          rw [hc]
          refine .all (congrArg (· + 1) length) fun k z hk => ?_
          cases k with
          | zero => rw [hfirst, Option.some.inj hk]
          | succ k => rw [hrest, get k z hk]
        | @stopped k e lt before failure =>
          have hc : copies (m + 1) x = (.error e, after x (k + 1 + 1)) := by
            simp only [copies, hx, hm, hafter]
          rw [hc]
          refine .stopped (Nat.succ_lt_succ lt) (fun j hj => ?_) ((hrest k).trans failure)
          cases j with
          | zero => exact ⟨y, hfirst⟩
          | succ j =>
            rw [hrest]
            exact before j (Nat.lt_of_succ_lt_succ hj)

/-- If every attempt gives a copy, these are the copies. -/
theorem copies_of_ok {m : Nat} {x : α} (h : ∀ k < m, ∃ y, attempt x k = .ok y) :
    ∃ ys, copies m x = (.ok ys, after x m) ∧ ys.length = m ∧
      ∀ k y, ys[k]? = some y → attempt x k = .ok y := by
  generalize hc : copies m x = a
  have hcopied := copied m x
  rw [hc] at hcopied
  cases hcopied with
  | all length get => exact ⟨_, rfl, length, get⟩
  | stopped lt before failure =>
    obtain ⟨y, hy⟩ := h _ lt
    rw [failure] at hy
    cases hy

/-- The first attempt that fails says why there are no copies. -/
theorem copies_of_error {m k : Nat} {x : α} {e : CopyFailure} (hk : k < m)
    (hbefore : ∀ j < k, ∃ y, attempt x j = .ok y) (he : attempt x k = .error e) :
    (copies m x).1 = .error e := by
  generalize hc : copies m x = a
  have hcopied := copied m x
  rw [hc] at hcopied
  cases hcopied with
  | @all ys length get =>
    have hy := get k ys[k] (List.getElem?_eq_getElem (length ▸ hk))
    rw [he] at hy
    cases hy
  | @stopped j e' lt before failure =>
    obtain hlt | rfl | hgt := Nat.lt_trichotomy j k
    · obtain ⟨y, hy⟩ := hbefore j hlt
      rw [failure] at hy
      cases hy
    · rw [failure] at he
      rw [Except.error.inj he]
    · obtain ⟨y, hy⟩ := before k hgt
      rw [he] at hy
      cases hy

end Payload

/-! ### One execution -/

namespace Node

/-- **What an execution with this result leaves behind** at a node with successors: an
entry for each of them, and either all entries carry data or none does. -/
structure Distributes (n : Node α) (v : NodeId) (result : Option (Except ExecutionError α))
    (f : Firing α) : Prop where
  output : f.output = none
  length : f.outgoing.length = n.successors.length
  uniform : (∀ e ∈ f.outgoing, e.isSome = true) ∨ ∀ e ∈ f.outgoing, e = none
  skipped : result = none → f.error = none ∧ f.outgoing = n.marks
  failed : ∀ {e}, result = some (.error e) → f.error = some e ∧ f.outgoing = n.marks
  /-- The output itself goes to the first successor, and its copies to the others. -/
  shared : ∀ {x}, result = some (.ok x) →
    (∀ k < n.successors.length - 1, ∃ y, Payload.attempt x k = .ok y) →
    f.error = none ∧
      f.outgoing[0]? = some (some (Payload.after x (n.successors.length - 1))) ∧
      ∀ {k y}, k < n.successors.length - 1 → Payload.attempt x k = .ok y →
        f.outgoing[k + 1]? = some (some y)
  /-- The first attempt that fails is reported. -/
  spoiled : ∀ {x k e}, result = some (.ok x) → k < n.successors.length - 1 →
    (∀ j < k, ∃ y, Payload.attempt x j = .ok y) → Payload.attempt x k = .error e →
    f.outgoing = n.marks ∧ f.error = some (.copyFailed v (match e with
      | .refused reason => reason
      | .panicked (.text message) => ⟨"panicked: " ++ message⟩
      | .panicked .wordless => ⟨"panicked: non-string panic payload"⟩))

variable {n : Node α}

omit [Payload α] in
theorem length_marks (n : Node α) : n.marks.length = n.successors.length :=
  List.length_replicate

omit [Payload α] in
theorem eq_none_of_mem_marks {e : Entry α} (h : e ∈ n.marks) : e = none :=
  List.eq_of_mem_replicate h

/-- What cannot be copied leaves marks alone. -/
theorem conclude_of_copies_error (h : n.isSink = false) (v : NodeId) {x : α} {e : CopyFailure}
    (he : (Payload.copies (n.successors.length - 1) x).1 = .error e) :
    n.conclude v (some (.ok x)) = ⟨none, some (.copyFailed v e.report), n.marks⟩ := by
  rcases hc : Payload.copies (n.successors.length - 1) x with ⟨c, x'⟩
  rw [hc] at he
  obtain rfl : c = .error e := he
  simp only [conclude, h, Bool.false_eq_true, if_false, fanOut, hc]

theorem conclude_of_copies_ok (h : n.isSink = false) (v : NodeId) {x x' : α} {ys : List α}
    (hc : Payload.copies (n.successors.length - 1) x = (.ok ys, x')) :
    n.conclude v (some (.ok x)) = ⟨none, none, some x' :: ys.map some⟩ := by
  simp only [conclude, h, Bool.false_eq_true, if_false, fanOut, hc]

/-- An entry for each successor, with data in all of them or in none. -/
theorem conclude_uniform (h : n.isSink = false) (v : NodeId)
    (result : Option (Except ExecutionError α)) :
    (n.conclude v result).output = none ∧
      (n.conclude v result).outgoing.length = n.successors.length ∧
      ((∀ e ∈ (n.conclude v result).outgoing, e.isSome = true) ∨
        ∀ e ∈ (n.conclude v result).outgoing, e = none) := by
  have hmarks : ∀ error : Option ExecutionError, (⟨none, error, n.marks⟩ : Firing α).output = none ∧
      n.marks.length = n.successors.length ∧
      ((∀ e ∈ n.marks, e.isSome = true) ∨ ∀ e ∈ n.marks, e = none) := fun _ =>
    ⟨rfl, n.length_marks, .inr fun _ => eq_none_of_mem_marks⟩
  rcases result with _ | e | x
  · rw [conclude_none]
    exact hmarks none
  · rw [conclude_error]
    exact hmarks (some e)
  · rcases hc : Payload.copies (n.successors.length - 1) x with ⟨e | ys, x'⟩
    · rw [conclude_of_copies_error h v (congrArg Prod.fst hc)]
      exact hmarks _
    · rw [conclude_of_copies_ok h v hc]
      have hlen := Payload.length_of_copies hc
      have hpos : 0 < n.successors.length := List.length_pos_of_ne_nil (by simpa [isSink] using h)
      refine ⟨rfl, ?_, .inl ?_⟩
      · simp only [List.length_cons, List.length_map, hlen]
        exact Nat.succ_pred_eq_of_pos hpos
      · simp

/-- **Fan-out is all or nothing.** -/
theorem distributes (h : n.isSink = false) (v : NodeId)
    (result : Option (Except ExecutionError α)) :
    n.Distributes v result (n.conclude v result) := by
  obtain ⟨houtput, hlength, huniform⟩ := conclude_uniform h v result
  refine ⟨houtput, hlength, huniform, ?_, ?_, ?_, ?_⟩
  · rintro rfl
    rw [conclude_none]
    exact ⟨rfl, rfl⟩
  · rintro e rfl
    rw [conclude_error]
    exact ⟨rfl, rfl⟩
  · rintro x rfl hall
    obtain ⟨ys, hc, hlen, hget⟩ := Payload.copies_of_ok hall
    rw [conclude_of_copies_ok h v hc]
    refine ⟨rfl, rfl, fun {k y} hk hy => ?_⟩
    have hlt : k < ys.length := hlen.symm ▸ hk
    have hyk := hget k ys[k] (List.getElem?_eq_getElem hlt)
    rw [hy] at hyk
    simp [hlt, Except.ok.inj hyk]
  · rintro x k e rfl hk hbefore he
    rw [conclude_of_copies_error h v (Payload.copies_of_error hk hbefore he)]
    refine ⟨rfl, ?_⟩
    cases e with
    | refused reason => rfl
    | panicked p => cases p <;> rfl

end Node

/-! ### Counting -/

namespace Graph

/-- How often a node was executed. -/
def runsOf (g : Graph α) (v : NodeId) : Option Nat :=
  (g.tally v).map (·.1)

omit [Payload α] in
theorem runsOf_of_tally {g g' : Graph α} {v : NodeId} (h : g'.tally v = g.tally v) :
    g'.runsOf v = g.runsOf v := by
  rw [runsOf, h, runsOf]

omit [Payload α] in
/-- An execution is counted once, whether a callback was called or not. -/
theorem runsOf_count (g : Graph α) (called : Bool) (v u : NodeId) :
    ((if called then g.countCall v else g).countRun v).runsOf u =
      (g.runsOf u).map (· + if v = u then 1 else 0) := by
  cases called <;>
    simp [runsOf, tally_countRun, tally_countCall, Option.map_map, Function.comp_def]

omit [Payload α] in
theorem runsOf_takeInputs (g : Graph α) (run : ObjectId) (taken : List (Entry α))
    (cs : List Channel) (u : NodeId) : (g.takeInputs run taken cs).2.runsOf u = g.runsOf u := by
  induction cs generalizing g taken with
  | nil => rfl
  | cons c cs ih =>
    unfold takeInputs
    split
    · rw [ih, runsOf_of_tally (tally_setPool ..)]
    · rfl

/-- **An execution by hand** is one of the node on some inputs, and is counted once; one that
does not happen is not counted. -/
theorem launch_counts {g : Graph α} {v : NodeId} {n : Node α} (hn : g.nodes[v]? = some n)
    (run : ObjectId) :
    (∀ e, (g.launch v run).1.outcome = .error e → ∀ u, (g.launch v run).2.runsOf u = g.runsOf u) ∧
      ∀ f, (g.launch v run).1.outcome = .ok f → (∃ inputs, f = n.fire v inputs false) ∧
        ∀ u, (g.launch v run).2.runsOf u = (g.runsOf u).map (· + if v = u then 1 else 0) := by
  unfold launch
  split
  · exact ⟨fun _ _ _ => rfl, nofun⟩
  simp only [hn]
  have htaken := g.runsOf_takeInputs run [] (g.inlets v)
  rcases ht : g.takeInputs run [] (g.inlets v) with ⟨e | inputs, g'⟩
  · rw [ht] at htaken
    exact ⟨fun _ _ => htaken, nofun⟩
  · rw [ht] at htaken
    refine ⟨nofun, fun f hf => ⟨⟨inputs, (Except.ok.inj hf).symm⟩, fun u => ?_⟩⟩
    rw [← htaken u]
    exact g'.runsOf_count _ v u

end Graph

/-- What an execution has come to and is about to record. -/
def Stage.firing? : Stage α → Option (Firing α)
  | .recording _ f => some f
  | _ => none

namespace Execution

omit [Payload α] in
/-- An operation fires what it brings to the record. -/
theorem fired_of_firing?_eq_none (x : Execution α) {st : Stage α} (h : st.firing? = none) :
    x.fired st = [] := by
  cases st with
  | recording => cases h
  | _ => rfl

/-- The result that a thread comes to when it skips the callback, does without one, or has
let it come to its end. -/
inductive Results (b : Binding α) (x : Execution α) (n : Node α) (seat : Seat) :
    Option (Except ExecutionError α) → Prop where
  | skipped {inputs : List (Entry α)} {s : RunStatus α} (hx : x.stage = .entering seat inputs)
      (hs : b.table.statuses[seat.slot]? = some s) (hg : gather inputs s.failed = none) :
      Results b x n seat none
  | forwarded {inputs : List (Entry α)} {s : RunStatus α} {xs : List α}
      (hx : x.stage = .entering seat inputs) (hs : b.table.statuses[seat.slot]? = some s)
      (hg : gather inputs s.failed = some xs) (hw : n.work = none) :
      Results b x n seat (some (forward x.node xs))
  | returned {xs : List α} {v : Verdict α} (hx : x.stage = .working seat xs (.done v)) :
      Results b x n seat (some (v.judge x.node))

/-- An operation that does not bring the execution to its record, and counts nothing. -/
def Uncounted (b : Binding α) (a : Advance α) : Prop :=
  a.stage.firing? = none ∧ ∀ u, a.binding.graph.runsOf u = b.graph.runsOf u

omit [Payload α] in
theorem Uncounted.setPool {st : Stage α} (h : st.firing? = none) (b : Binding α) (c : Channel)
    (p : Pool (Entry α)) : Uncounted b { binding := b.modifyGraph (·.setPool c p), stage := st } :=
  ⟨h, fun u => Graph.runsOf_of_tally (Graph.tally_setPool c p u)⟩

omit [Payload α] in
theorem uncounted_awaitOne (b : Binding α) (run : Option ObjectId) (taken : List (Entry α))
    (c : Channel) (rest : List Channel) : Uncounted b (awaitOne b run taken c rest) := by
  unfold awaitOne
  split
  · exact ⟨rfl, fun _ => rfl⟩
  split
  · exact ⟨rfl, fun _ => rfl⟩
  · exact ⟨rfl, fun _ => rfl⟩
  · refine .setPool ?_ b c _
    split <;> rfl

omit [Payload α] in
theorem uncounted_publish (b : Binding α) (seat : Seat) (c : Channel) (e : Entry α)
    (rest : Deliveries α) (waiting : Bool) : Uncounted b (publish b seat c e rest waiting) := by
  unfold publish
  split
  · exact ⟨rfl, fun _ => rfl⟩
  split
  · split
    · exact ⟨rfl, fun _ => rfl⟩
    · exact .setPool rfl b c _
  · exact .setPool rfl b c _
  · exact ⟨rfl, fun _ => rfl⟩

omit [Payload α] in
theorem runsOf_stageEntries (g : Graph α) (run : ObjectId) (staged : Staged α) (u : NodeId) :
    (Binding.stageEntries g run staged).2.runsOf u = g.runsOf u := by
  induction staged generalizing g with
  | nil => rfl
  | cons p staged ih =>
    obtain ⟨v, e⟩ := p
    unfold Binding.stageEntries
    split
    · rfl
    split
    · rfl
    · rw [ih, Graph.runsOf_of_tally (Graph.tally_setPool ..)]

omit [Payload α] in
theorem runsOf_start (b : Binding α) (a : Admitted α) (u : NodeId) :
    (b.start a).2.graph.runsOf u = b.graph.runsOf u := by
  have hstaged := runsOf_stageEntries b.graph a.objectId a.inputs u
  unfold Binding.start
  rcases hs : Binding.stageEntries b.graph a.objectId a.inputs with ⟨f | _, g⟩ <;>
    rwa [hs] at hstaged

omit [Payload α] in
theorem uncounted_complete (k : Strategy) (b : Binding α) (slot : SlotId) :
    Uncounted b (complete k b slot) := by
  unfold complete
  rcases b.table.complete slot with ⟨f | c, table⟩
  · exact ⟨rfl, fun _ => rfl⟩
  dsimp only
  cases c.next with
  | none => exact ⟨rfl, fun _ => rfl⟩
  | some a =>
    have hstart := runsOf_start { b with table } a
    dsimp only
    rcases hs : Binding.start { b with table } a with ⟨f | tasks, b'⟩ <;> rw [hs] at hstart <;>
      exact ⟨rfl, hstart⟩

/-- **An operation of a thread** ends an execution with its result and counts it, or does
not count anything. -/
theorem advance_cases (k : Strategy) (b : Binding α) (x : Execution α) :
    (∃ n seat called result, b.graph.nodes[x.node]? = some n ∧ Results b x n seat result ∧
        x.advance k b = conclude b x.node n seat called result) ∨
      Uncounted b (x.advance k b) := by
  obtain ⟨node, stage⟩ := x
  have hquiet : ∀ {t : Table α} {st : Stage α} {ready : List Task} {resolved},
      st.firing? = none →
      Uncounted b { binding := { b with table := t }, stage := st, ready, resolved } := by
    intro t st ready resolved h
    exact ⟨h, fun _ => rfl⟩
  cases stage with
  | opening slot =>
    right
    simp only [advance]
    cases b.table.statuses[slot]? <;> exact hquiet rfl
  | claiming seat taken rest =>
    right
    cases rest with
    | nil => exact hquiet rfl
    | cons c rest =>
      simp only [advance]
      rcases b.graph.entryOf? c seat.run with _ | ⟨e, p⟩
      · exact hquiet rfl
      · exact .setPool rfl b c p
  | awaiting run taken rest =>
    right
    cases rest with
    | nil => cases run <;> exact hquiet rfl
    | cons c rest =>
      simp only [advance]
      exact uncounted_awaitOne b run taken c rest
  | locating run taken =>
    right
    simp only [advance]
    cases b.table.slotOf? run <;> exact hquiet rfl
  | entering seat inputs =>
    simp only [advance]
    cases hs : b.table.statuses[seat.slot]? with
    | none => exact .inr (hquiet rfl)
    | some s =>
      cases hn : b.graph.nodes[node]? with
      | none => exact .inr (hquiet rfl)
      | some n =>
        dsimp only
        cases hg : gather inputs s.failed with
        | none => exact .inl ⟨n, seat, _, _, rfl, .skipped rfl hs hg, rfl⟩
        | some xs =>
          cases hw : n.work with
          | none => exact .inl ⟨n, seat, _, _, rfl, .forwarded rfl hs hg hw, rfl⟩
          | some work => exact .inr (hquiet rfl)
  | working seat xs c =>
    cases c with
    | hold barrier rest => exact .inr (hquiet rfl)
    | done v =>
      simp only [advance]
      cases hn : b.graph.nodes[node]? with
      | none => exact .inr (hquiet rfl)
      | some n => exact .inl ⟨n, seat, _, _, rfl, .returned rfl, rfl⟩
  | publishing seat rest waiting =>
    right
    cases rest with
    | nil =>
      refine hquiet ?_
      unfold afterPublishing
      split <;> rfl
    | cons d rest => exact uncounted_publish b seat d.1 d.2 rest waiting
  | releasing seat rest =>
    right
    cases rest with
    | nil => exact hquiet rfl
    | cons succ rest =>
      simp only [advance]
      cases b.table.dependencyVerdict seat.slot succ <;> exact hquiet rfl
  | finishing seat =>
    right
    simp only [advance]
    cases b.table.sinkVerdict seat.slot with
    | error f => exact hquiet rfl
    | ok last => cases last <;> exact hquiet rfl
  | completing seat => exact .inr (uncounted_complete k b seat.slot)
  | recording | resolving | «over» | stopped | broken => exact .inr (hquiet rfl)

/-- The counters go up by what the operation fires. -/
theorem runsOf_advance (k : Strategy) (b : Binding α) (x : Execution α) (u : NodeId) :
    (x.advance k b).binding.graph.runsOf u =
      (b.graph.runsOf u).map (· + occurrences u (x.fired (x.advance k b).stage)) := by
  rcases x.advance_cases k b with ⟨n, seat, called, result, -, -, he⟩ | ⟨hst, hruns⟩
  · rw [he]
    simp only [conclude, fired, occurrences_singleton]
    exact b.graph.runsOf_count called x.node u
  · rw [x.fired_of_firing?_eq_none hst, hruns, occurrences_nil]
    exact Option.map_id'.symm

/-- What is recorded is the end of an execution. -/
theorem advance_eq_recording {k : Strategy} {b : Binding α} {x : Execution α} {seat : Seat}
    {f : Firing α} (h : (x.advance k b).stage = .recording seat f) :
    ∃ n result, b.graph.nodes[x.node]? = some n ∧ Results b x n seat result ∧
      f = n.conclude x.node result := by
  rcases x.advance_cases k b with ⟨n, seat', called, result, hn, hr, he⟩ | ⟨hst, -⟩
  · rw [he, conclude] at h
    obtain ⟨rfl, rfl⟩ := Stage.recording.inj h
    exact ⟨n, result, hn, hr, rfl⟩
  · rw [h] at hst
    cases hst

end Execution

/-! ### All or nothing -/

namespace Graph

/-- **What the executions of a node with successors do**: each of them leaves data for all
successors or for none, and is counted once. -/
structure FansOut (g : Graph α) (v : NodeId) (n : Node α) : Prop where
  /-- Copies are made one after another, and none after an attempt that fails. -/
  copied : ∀ x : α, Payload.Copied (n.successors.length - 1) x
    (Payload.copies (n.successors.length - 1) x)
  fire : ∀ inputs poisoned,
    n.Distributes v ((gather inputs poisoned).map (n.invoke v)) (n.fire v inputs poisoned)
  /-- An execution by hand is one on some inputs. -/
  launched : ∀ {run f}, (g.launch v run).1.outcome = .ok f →
    (∃ inputs, f = n.fire v inputs false) ∧
      ((g.launch v run).1.deliveries (g.outlets v)).map (·.1) = g.outlets v ∧
      ∀ u, (g.launch v run).2.runsOf u = (g.runsOf u).map (· + if v = u then 1 else 0)
  /-- A thread records what it has come to, -/
  recorded : ∀ {k : Strategy} {b : Binding α} {x : Execution α} {seat f}, b.graph = g → x.node = v →
    (x.advance k b).stage = .recording seat f →
    (∃ result, Execution.Results b x n seat result ∧ n.Distributes v result f) ∧
      ((g.outlets v).zip f.outgoing).map (·.1) = g.outlets v ∧
      ∀ u, (x.advance k b).binding.graph.runsOf u = (g.runsOf u).map (· + if v = u then 1 else 0)
  /-- and only then is the execution counted. -/
  unrecorded : ∀ {k : Strategy} {b : Binding α} {x : Execution α}, b.graph = g → x.node = v →
    (x.advance k b).stage.firing? = none →
    ∀ u, (x.advance k b).binding.graph.runsOf u = g.runsOf u

omit [Payload α] in
/-- Each outlet gets the entry of its successor. -/
theorem map_fst_zip_outlets {g : Graph α} {v : NodeId} {n : Node α} (hn : g.nodes[v]? = some n)
    {entries : List (Entry α)} (h : entries.length = n.successors.length) :
    ((g.outlets v).zip entries).map (·.1) = g.outlets v := by
  refine List.map_fst_zip (Nat.le_of_eq ?_)
  rw [outlets, List.length_map, successors_of_node hn, h]

/-- **Fan-out is all or nothing**, whatever the attempts at copies come to. -/
theorem fans_out {g : Graph α} {v : NodeId} {n : Node α} (hn : g.nodes[v]? = some n)
    (hs : n.successors ≠ []) : g.FansOut v n := by
  have hsink : n.isSink = false := by simpa [Node.isSink] using hs
  have hfire : ∀ inputs poisoned, n.Distributes v ((gather inputs poisoned).map (n.invoke v))
      (n.fire v inputs poisoned) := fun inputs poisoned => Node.distributes hsink v _
  refine ⟨Payload.copied _, hfire, fun {run f} hf => ?_, ?_, ?_⟩
  · obtain ⟨-, hok⟩ := launch_counts hn run
    obtain ⟨⟨inputs, rfl⟩, hruns⟩ := hok f hf
    refine ⟨⟨inputs, rfl⟩, ?_, hruns⟩
    rw [Launch.deliveries, hf]
    exact map_fst_zip_outlets hn (hfire inputs false).length
  · rintro k b x seat f rfl rfl hrec
    obtain ⟨n', result, hn', hresult, rfl⟩ := Execution.advance_eq_recording hrec
    obtain rfl := Option.some.inj (hn.symm.trans hn')
    have hdist := Node.distributes hsink x.node result
    refine ⟨⟨result, hresult, hdist⟩, map_fst_zip_outlets hn hdist.length, fun u => ?_⟩
    rw [x.runsOf_advance k b u, hrec, Execution.fired, occurrences_singleton]
  · rintro k b x rfl rfl hno u
    rw [x.runsOf_advance k b u, x.fired_of_firing?_eq_none hno, occurrences_nil]
    exact Option.map_id'

end Graph

/-! ### A value that cannot be copied often -/

/-- A value that gives some number of copies and panics when it is asked for another. -/
structure Fickle where
  asked : Nat
  stock : Nat
deriving DecidableEq

instance : Payload Fickle where
  tryCopy x := (if x.asked < x.stock then .ok ⟨0, 0⟩ else .error (.panicked .wordless),
    { x with asked := x.asked + 1 })

/-- A source that makes such a value and sends it to three other nodes. -/
def fork (stock : Nat) : Graph Fickle :=
  let make : Work Fickle := fun _ => .done (.value ⟨0, stock⟩)
  let g := (((Graph.empty.add "a" (some make)).2.add "b" none).2.add "c" none).2.add "d" none
  ((((g.2.precede 0 1).2.precede 0 2).2.precede 0 3).2.freeze 1).2

/-- With a stock of one the second attempt fails, and no successor gets anything. -/
theorem fans_out_fork : ∃ n, (fork 1).nodes[0]? = some n ∧ n.successors ≠ [] ∧
    (fork 1).FansOut 0 n ∧ n.fire 0 [] false =
      ⟨none, some (.copyFailed 0 ⟨"panicked: non-string panic payload"⟩), [none, none, none]⟩ := by
  have hn : (fork 1).nodes[0]? =
      some ⟨"a", some fun _ => .done (.value ⟨0, 1⟩), [], [1, 2, 3]⟩ := by cbv
  have hs : [1, 2, 3] ≠ ([] : List NodeId) := List.cons_ne_nil _ _
  exact ⟨_, hn, hs, Graph.fans_out hn hs, rfl⟩

/-- With a stock of two all of them get something, and the first gets the value that was
asked for the copies. -/
example : ((fork 2).nodes[0]?.map fun n => (n.fire 0 [] false).outgoing) =
    some [some ⟨2, 2⟩, some ⟨0, 0⟩, some ⟨0, 0⟩] := by
  cbv

end Dataflow
