import Mathlib.Data.List.Basic
import Dataflow.Workload.Value

/-!
# Composite payloads

Options and pairs of payloads are payloads, so a type can be put together from others to any
depth: `Payload.Composite α` is a way to do so, down to the types that are left as they are.
The values of these types that a value of `α` contains are its leaves (`Composite.leaves`, from
left to right), and what is left of it without them is its outline, which tells an absent value
on one level from an absent value on another. A value has no more to it than its outline and its
leaves (`Composite.ext`).

A copy of a leaf may fail, may panic and may change the leaf. `Payload.LeafByLeaf` says of a list
of leaves what it means to copy them one after another up to the first that gives no copy, and
`Composite.leafByLeaf` that a copy of a value does this with its leaves and leaves its outline
alone, whatever its type.
-/

namespace Dataflow

namespace Payload

/-! ### Types that are put together from others -/

/-- **A way to put a type together** from leaves, by options and pairs. -/
inductive Composite : (α : Type) → [Payload α] → Type 1 where
  | leaf (α : Type) [Payload α] : Composite α
  | option {α : Type} [Payload α] (part : Composite α) : Composite (Option α)
  | pair {α β : Type} [Payload α] [Payload β] (left : Composite α) (right : Composite β) :
      Composite (α × β)

/-- A value at a leaf, with its type and the way that copies of it are made. -/
structure Leaf : Type 1 where
  type : Type
  payload : Payload type
  value : type

namespace Leaf

/-- What an attempt at a copy of the leaf comes to. -/
def copy (l : Leaf) : Except CopyFailure Leaf :=
  match (l.payload.tryCopy l.value).1 with
  | .ok y => .ok { l with value := y }
  | .error e => .error e

/-- What the leaf has become after one attempt. -/
def asked (l : Leaf) : Leaf :=
  { l with value := (l.payload.tryCopy l.value).2 }

end Leaf

/-- What is left of a value without its leaves. -/
inductive Outline where
  | leaf
  | absent
  | present (part : Outline)
  | pair (left right : Outline)

namespace Composite

/-- The leaves that are present in a value, from left to right. -/
def leaves : {α : Type} → [Payload α] → Composite α → α → List Leaf
  | _, _, @leaf α p, x => [⟨α, p, x⟩]
  | _, _, @option _ _ _, none => []
  | _, _, @option _ _ d, some x => d.leaves x
  | _, _, @pair _ _ _ _ d e, (a, b) => d.leaves a ++ e.leaves b

/-- Where the leaves are, and where they are absent. -/
def outline : {α : Type} → [Payload α] → Composite α → α → Outline
  | _, _, @leaf _ _, _ => .leaf
  | _, _, @option _ _ _, none => .absent
  | _, _, @option _ _ d, some x => .present (d.outline x)
  | _, _, @pair _ _ _ _ d e, (a, b) => .pair (d.outline a) (e.outline b)

/-- The outline says how many leaves there are. -/
theorem length_leaves {α : Type} [Payload α] (d : Composite α) {x y : α}
    (h : d.outline x = d.outline y) : (d.leaves x).length = (d.leaves y).length := by
  induction d with
  | leaf => rfl
  | option d ih =>
    cases x with
    | none =>
      cases y with
      | none => rfl
      | some y => cases h
    | some x =>
      cases y with
      | none => cases h
      | some y => exact ih (Outline.present.inj h)
  | pair d e ihd ihe =>
    obtain ⟨hd, he⟩ := Outline.pair.inj h
    simp only [leaves, List.length_append, ihd hd, ihe he]

/-- **A value is its outline with its leaves.** -/
theorem ext {α : Type} [Payload α] (d : Composite α) {x y : α}
    (ho : d.outline x = d.outline y) (hl : d.leaves x = d.leaves y) : x = y := by
  induction d with
  | leaf =>
    obtain ⟨h, -⟩ := List.cons.inj hl
    exact eq_of_heq (Leaf.mk.inj h).2.2
  | option d ih =>
    cases x with
    | none =>
      cases y with
      | none => rfl
      | some y => cases ho
    | some x =>
      cases y with
      | none => cases ho
      | some y => exact congrArg some (ih (Outline.present.inj ho) hl)
  | pair d e ihd ihe =>
    obtain ⟨hd, he⟩ := Outline.pair.inj ho
    obtain ⟨hld, hle⟩ := List.append_inj hl (d.length_leaves hd)
    exact Prod.ext (ihd hd hld) (ihe he hle)

end Composite

/-! ### Leaves that are copied one after another -/

/-- **Some leaves are copied one after another**, up to the first that gives no copy: what
this comes to, and what has become of the leaves. -/
inductive LeafByLeaf (ls : List Leaf) : Except CopyFailure (List Leaf) → List Leaf → Prop where
  /-- Each leaf is asked once, and gives a copy. -/
  | all {copies : List Leaf} (copy : ls.map Leaf.copy = copies.map .ok) :
      LeafByLeaf ls (.ok copies) (ls.map Leaf.asked)
  /-- A leaf gives no copy, and those after it are not asked. -/
  | stopped {before after : List Leaf} {bad : Leaf} {e : CopyFailure}
      (split : ls = before ++ bad :: after) (copied : ∀ l ∈ before, ∃ c, l.copy = .ok c)
      (failure : bad.copy = .error e) :
      LeafByLeaf ls (.error e) (before.map Leaf.asked ++ bad.asked :: after)

namespace LeafByLeaf

variable {ls ls' ms ms' copies : List Leaf} {e : CopyFailure}
  {r : Except CopyFailure (List Leaf)}

theorem of_ok (h : LeafByLeaf ls (.ok copies) ls') :
    ls.map Leaf.copy = copies.map .ok ∧ ls' = ls.map Leaf.asked := by
  cases h with
  | all copy => exact ⟨copy, rfl⟩

theorem of_error (h : LeafByLeaf ls (.error e) ls') : ∃ before bad after,
    ls = before ++ bad :: after ∧ (∀ l ∈ before, ∃ c, l.copy = .ok c) ∧ bad.copy = .error e ∧
      ls' = before.map Leaf.asked ++ bad.asked :: after := by
  cases h with
  | stopped split copied failure => exact ⟨_, _, _, split, copied, failure, rfl⟩

/-- Leaves whose copies are listed give copies. -/
theorem exists_copy {l : Leaf} (h : ls.map Leaf.copy = copies.map .ok) (hl : l ∈ ls) :
    ∃ c, l.copy = .ok c := by
  obtain ⟨c, -, hc⟩ := List.mem_map.mp (h ▸ List.mem_map_of_mem hl)
  exact ⟨c, hc.symm⟩

theorem nil : LeafByLeaf [] (.ok []) [] :=
  .all rfl

theorem singleton (l : Leaf) : LeafByLeaf [l] (l.copy.map ([·])) [l.asked] := by
  cases h : l.copy with
  | ok c => exact .all (congrArg ([·]) h)
  | error e => exact @LeafByLeaf.stopped [l] [] [] l e rfl nofun h

/-- What follows a leaf without a copy is not asked. -/
theorem append_left (h : LeafByLeaf ls (.error e) ls') (ms : List Leaf) :
    LeafByLeaf (ls ++ ms) (.error e) (ls' ++ ms) := by
  obtain ⟨before, bad, after, split, copied, failure, rfl⟩ := h.of_error
  have hs : ls ++ ms = before ++ bad :: (after ++ ms) := by
    rw [split, List.append_assoc, List.cons_append]
  rw [List.append_assoc, List.cons_append]
  exact .stopped hs copied failure

/-- Where all leaves give copies, what comes after them is copied next. -/
theorem append (h : LeafByLeaf ls (.ok copies) ls') (hm : LeafByLeaf ms r ms') :
    LeafByLeaf (ls ++ ms) (r.map (copies ++ ·)) (ls' ++ ms') := by
  obtain ⟨copy, rfl⟩ := h.of_ok
  cases hm with
  | @all copies' copy' =>
    rw [← List.map_append]
    exact .all (by rw [List.map_append, copy, copy', List.map_append])
  | @stopped before after bad _ split copied failure =>
    have hs : ls ++ ms = (ls ++ before) ++ bad :: after := by rw [split, List.append_assoc]
    rw [← List.append_assoc, ← List.map_append]
    refine .stopped hs (fun l hl => ?_) failure
    rcases List.mem_append.mp hl with hl | hl
    · exact exists_copy copy hl
    · exact copied l hl

end LeafByLeaf

/-! ### Copies of a value -/

section Parts

variable {α β : Type} [Payload α] [Payload β]

theorem tryCopy_some (x : α) :
    tryCopy (some x) = ((tryCopy x).1.map some, some (tryCopy x).2) := by
  show copyOption (some x) = _
  rcases h : tryCopy x with ⟨e | y, x'⟩ <;> simp only [copyOption, h] <;> rfl

theorem tryCopy_pair_of_error {a : α} {e : CopyFailure} (h : (tryCopy a).1 = .error e) (b : β) :
    tryCopy (a, b) = (.error e, ((tryCopy a).2, b)) := by
  show copyPair (a, b) = _
  rcases ha : tryCopy a with ⟨c, a'⟩
  obtain rfl : c = .error e := (congrArg Prod.fst ha).symm.trans h
  simp only [copyPair, ha]

theorem tryCopy_pair_of_ok {a c : α} (h : (tryCopy a).1 = .ok c) (b : β) :
    tryCopy (a, b) = ((tryCopy b).1.map (c, ·), ((tryCopy a).2, (tryCopy b).2)) := by
  show copyPair (a, b) = _
  rcases ha : tryCopy a with ⟨c', a'⟩
  obtain rfl : c' = .ok c := (congrArg Prod.fst ha).symm.trans h
  rcases hb : tryCopy b with ⟨e | d, b'⟩ <;> simp only [copyPair, ha, hb] <;> rfl

end Parts

namespace Composite

/-- Neither a copy nor what the value has become has another outline than the value had. -/
theorem outline_tryCopy {α : Type} [Payload α] (d : Composite α) (x : α) :
    (∀ y, (tryCopy x).1 = .ok y → d.outline y = d.outline x) ∧
      d.outline (tryCopy x).2 = d.outline x := by
  induction d with
  | leaf => exact ⟨fun _ _ => rfl, rfl⟩
  | option d ih =>
    cases x with
    | none => exact ⟨fun y h => by rw [← Except.ok.inj h], rfl⟩
    | some x =>
      obtain ⟨hcopy, hself⟩ := ih x
      rw [tryCopy_some]
      refine ⟨fun y h => ?_, congrArg Outline.present hself⟩
      cases hx : (tryCopy x).1 with
      | error e =>
        rw [hx] at h
        cases h
      | ok z =>
        rw [hx] at h
        rw [← Except.ok.inj h]
        exact congrArg Outline.present (hcopy z hx)
  | pair d e ihd ihe =>
    obtain ⟨a, b⟩ := x
    obtain ⟨hcopya, hselfa⟩ := ihd a
    obtain ⟨hcopyb, hselfb⟩ := ihe b
    cases ha : (tryCopy a).1 with
    | error failure =>
      rw [tryCopy_pair_of_error ha]
      exact ⟨nofun, congrArg (Outline.pair · (e.outline b)) hselfa⟩
    | ok a' =>
      rw [tryCopy_pair_of_ok ha]
      refine ⟨fun y h => ?_, congrArg₂ Outline.pair hselfa hselfb⟩
      cases hb : (tryCopy b).1 with
      | error failure =>
        rw [hb] at h
        cases h
      | ok b' =>
        rw [hb] at h
        rw [← Except.ok.inj h]
        exact congrArg₂ Outline.pair (hcopya a' ha) (hcopyb b' hb)

/-- **A copy of a value copies its leaves one after another.** -/
theorem leafByLeaf {α : Type} [Payload α] (d : Composite α) (x : α) :
    LeafByLeaf (d.leaves x) ((tryCopy x).1.map d.leaves) (d.leaves (tryCopy x).2) := by
  induction d with
  | @leaf α p =>
    have h := LeafByLeaf.singleton ⟨α, p, x⟩
    rw [Leaf.copy] at h
    cases hx : (tryCopy x).1 <;> simp only [hx] at h <;> exact h
  | option d ih =>
    cases x with
    | none => exact .nil
    | some x =>
      have h := ih x
      rw [tryCopy_some]
      cases hx : (tryCopy x).1 <;> rw [hx] at h <;> exact h
  | pair d e ihd ihe =>
    obtain ⟨a, b⟩ := x
    have hd := ihd a
    have he := ihe b
    cases ha : (tryCopy a).1 with
    | error failure =>
      rw [ha] at hd
      rw [tryCopy_pair_of_error ha]
      exact hd.append_left (e.leaves b)
    | ok a' =>
      rw [ha] at hd
      rw [tryCopy_pair_of_ok ha]
      have h := hd.append he
      cases hb : (tryCopy b).1 <;> rw [hb] at h <;> exact h

/-- **What a copy of a value comes to** that is put together in some way. -/
structure Copies {α : Type} [Payload α] (d : Composite α) (x : α) : Prop where
  /-- There is a copy exactly if all leaves that are present give one. -/
  succeeds_iff : (∃ y, (tryCopy x).1 = .ok y) ↔ ∀ l ∈ d.leaves x, ∃ c, l.copy = .ok c
  /-- It is the value with the same outline that has at each leaf the copy of the leaf there. -/
  copy_iff : ∀ {y}, (tryCopy x).1 = .ok y ↔
    d.outline y = d.outline x ∧ (d.leaves y).map .ok = (d.leaves x).map Leaf.copy
  /-- Then each leaf was asked once. -/
  asked : ∀ {y}, (tryCopy x).1 = .ok y → d.leaves (tryCopy x).2 = (d.leaves x).map Leaf.asked
  /-- Otherwise the first leaf that gives no copy says why. The leaves before it were asked once
  and have given a copy, and those after it are as they were. -/
  failure : ∀ {e}, (tryCopy x).1 = .error e → ∃ before bad after,
    d.leaves x = before ++ bad :: after ∧ (∀ l ∈ before, ∃ c, l.copy = .ok c) ∧
      bad.copy = .error e ∧
      d.leaves (tryCopy x).2 = before.map Leaf.asked ++ bad.asked :: after
  /-- Whatever the attempt comes to, the value keeps its outline. -/
  outline : d.outline (tryCopy x).2 = d.outline x
  /-- If the copies of the leaves are equal to them, the copy is equal to the value. -/
  equal : (∀ l ∈ d.leaves x, l.copy = .ok l) → (tryCopy x).1 = .ok x

/-- **A composite value is copied leaf by leaf**, and as a whole or not at all. -/
theorem copies_leaf_by_leaf {α : Type} [Payload α] (d : Composite α) (x : α) : d.Copies x := by
  have hleaves := d.leafByLeaf x
  obtain ⟨hcopy, hself⟩ := d.outline_tryCopy x
  have hok : ∀ {y}, (tryCopy x).1 = .ok y → (d.leaves x).map Leaf.copy = (d.leaves y).map .ok ∧
      d.leaves (tryCopy x).2 = (d.leaves x).map Leaf.asked := fun hy =>
    LeafByLeaf.of_ok (by rwa [hy] at hleaves)
  have herror : ∀ {e}, (tryCopy x).1 = .error e → ∃ before bad after,
      d.leaves x = before ++ bad :: after ∧ (∀ l ∈ before, ∃ c, l.copy = .ok c) ∧
        bad.copy = .error e ∧
        d.leaves (tryCopy x).2 = before.map Leaf.asked ++ bad.asked :: after := fun he =>
    LeafByLeaf.of_error (by rwa [he] at hleaves)
  have hall : (∀ l ∈ d.leaves x, ∃ c, l.copy = .ok c) → ∃ y, (tryCopy x).1 = .ok y := by
    intro hgives
    cases hx : (tryCopy x).1 with
    | ok y => exact ⟨y, rfl⟩
    | error e =>
      obtain ⟨before, bad, after, hsplit, -, hbad, -⟩ := herror hx
      obtain ⟨c, hc⟩ := hgives bad (hsplit ▸ List.mem_append_right _ (List.mem_cons_self ..))
      rw [hbad] at hc
      cases hc
  -- a value that has the copies at its leaves is the copy, because there is one and `ext`
  have hunique : ∀ {y}, d.outline y = d.outline x →
      (d.leaves y).map .ok = (d.leaves x).map Leaf.copy → (tryCopy x).1 = .ok y := by
    intro y ho hl
    obtain ⟨z, hz⟩ := hall fun l => LeafByLeaf.exists_copy hl.symm
    have hzy : d.leaves z = d.leaves y :=
      (List.map_inj_right fun _ _ => Except.ok.inj).mp ((hok hz).1.symm.trans hl.symm)
    rw [hz, d.ext ((hcopy z hz).trans ho.symm) hzy]
  exact ⟨⟨fun ⟨y, hy⟩ l => LeafByLeaf.exists_copy (hok hy).1, hall⟩,
    ⟨fun hy => ⟨hcopy _ hy, (hok hy).1.symm⟩, fun h => hunique h.1 h.2⟩, fun hy => (hok hy).2,
    herror, hself, fun hsame => hunique rfl (List.map_congr_left hsame).symm⟩

/-- The third of these five leaves panics when it is asked for a copy. The first two have given
one by then, and the others are not asked. -/
example :
    let value (number : Int64) (left : Nat) : Workload.Value :=
      ⟨number, some ⟨left, "spent", .fixedText⟩⟩
    tryCopy ((value 1 2, value 2 2), (some (value 3 0), (value 4 2, "e"))) =
      (.error (.panicked (.text "spent")),
        ((value 1 1, value 2 1), (some (value 3 0), (value 4 2, "e")))) :=
  rfl

end Composite

end Payload

end Dataflow
