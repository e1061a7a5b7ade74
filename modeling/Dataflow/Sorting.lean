/-!
# Sorting by division

A list is put in ascending order of the keys of its elements. Where keys are equal the
order of the result is a definite one too: a short list, and one that is in order or
in strictly descending order, is sorted without moving elements of equal keys past
each other, and any other list is first divided at pivots.

A division brings the elements below the pivot to the front, one after another, each
by an exchange with the first element behind the front. Pieces of moderate length are
left as they are, and so is what a division finds to be equal to an earlier pivot. If
the divisions have gone too deep, a piece is put in order by a heap. Afterwards every
element is in the piece where it belongs, and a sort that keeps the order of equal
keys does the rest.

Main statements: the result has the same elements, and it is in order.
-/

namespace Dataflow

namespace Sorting

variable {α : Type} (key : α → Nat)

/-- The key at a position; zero beyond the end. -/
def keyAt (xs : Array α) (i : Nat) : Nat :=
  (xs[i]?.map key).getD 0

theorem swapIfInBounds_perm (xs : Array α) (i j : Nat) :
    (xs.swapIfInBounds i j).toList.Perm xs.toList := by
  unfold Array.swapIfInBounds
  split
  · split
    · exact Array.perm_iff_toList_perm.mp (Array.swap_perm _ _)
    · exact .refl _
  · exact .refl _

/-! ### Heaps -/

/-- Lets an element of a heap of the given size sink below every greater child, the
greatest first. -/
def sink (size : Nat) (xs : Array α) (node : Nat) : Array α :=
  let left := 2 * node + 1
  if _h : left < size then
    let child :=
      if left + 1 < size ∧ keyAt key xs left < keyAt key xs (left + 1) then left + 1 else left
    if keyAt key xs node < keyAt key xs child then
      sink size (xs.swapIfInBounds node child) child
    else xs
  else xs
termination_by size - node
decreasing_by split <;> omega

/-- Makes a heap of a list, and then takes the greatest element off it again and again. -/
def heapSort (xs : List α) : List α :=
  let heap := (List.range (xs.length / 2)).reverse.foldl (sink key xs.length) xs.toArray
  let sorted := (List.range xs.length).reverse.foldl
    (fun heap i => sink key i (heap.swapIfInBounds 0 i) 0) heap
  sorted.toList

theorem sink_perm (size : Nat) (xs : Array α) (node : Nat) :
    (sink key size xs node).toList.Perm xs.toList := by
  fun_induction sink key size xs node with
  | case1 xs node left h child hlt ih => exact ih.trans (swapIfInBounds_perm xs node child)
  | case2 => exact .refl _
  | case3 => exact .refl _

theorem foldl_perm {β : Type} (f : Array α → β → Array α)
    (hf : ∀ xs b, (f xs b).toList.Perm xs.toList) (bs : List β) (xs : Array α) :
    (bs.foldl f xs).toList.Perm xs.toList := by
  induction bs generalizing xs with
  | nil => exact .refl _
  | cons b bs ih => exact (ih (f xs b)).trans (hf xs b)

theorem heapSort_perm (xs : List α) : (heapSort key xs).Perm xs := by
  refine (foldl_perm _ (fun heap i => ?_) _ _).trans (foldl_perm _ (sink_perm key _) _ _)
  exact (sink_perm key _ _ _).trans (swapIfInBounds_perm _ _ _)

/-! ### Pivots -/

/-- The position, of three, whose key is the middle one. -/
def middle (xs : Array α) (i j k : Nat) : Nat :=
  let a := keyAt key xs i
  let b := keyAt key xs j
  let c := keyAt key xs k
  if decide (a < b) = decide (a < c) then
    if decide (b < c) = decide (a < b) then j else k
  else i

/-- The position that stands for a section of a list: the first one of a short section,
and otherwise the middle one of those that stand for its first, fifth and eighth
eighth. -/
def delegate (xs : Array α) (start length : Nat) : Nat :=
  if length < 8 then start
  else
    let n := length / 8
    middle key xs (delegate xs start n) (delegate xs (start + 4 * n) n)
      (delegate xs (start + 7 * n) n)
termination_by length

/-! ### Division -/

/-- Exchanges the element at a position with the first one behind the front, and makes
the front longer if it belongs there. -/
def admitOne (inFront : α → Bool) (s : Array α × Nat) (i : Nat) : Array α × Nat :=
  let xs := s.1.swapIfInBounds s.2 i
  if xs[s.2]?.any inFront then (xs, s.2 + 1) else (xs, s.2)

/-- Brings the elements that belong there to the front; returns how many there are. -/
def bringForward (inFront : α → Bool) (xs : Array α) : Array α × Nat :=
  (List.range xs.size).foldl (admitOne inFront) (xs, 0)

/-- A list divided at one of its elements. -/
structure Division (α : Type) where
  front : List α
  pivot : α
  back : List α

/-- The elements in the order of the division. -/
def Division.toList (d : Division α) : List α :=
  d.front ++ d.pivot :: d.back

/-- Divides a list at a pivot. The first element is looked at last, and the pivot
changes places with the last element of the front. -/
def divideAt (inFront : α → Bool) (pivot : α) : List α → Division α
  | [] => ⟨[], pivot, []⟩
  | x :: xs =>
    let s := bringForward inFront (xs ++ [x]).toArray
    let front := s.1.toList.take s.2
    let back := s.1.toList.drop s.2
    match front.getLast? with
    | none => ⟨[], pivot, back⟩
    | some last => ⟨last :: front.dropLast, pivot, back⟩

theorem admitOne_perm (inFront : α → Bool) (s : Array α × Nat) (i : Nat) :
    (admitOne inFront s i).1.toList.Perm s.1.toList := by
  simp only [admitOne]
  split <;> exact swapIfInBounds_perm _ _ _

theorem bringForward_perm (inFront : α → Bool) (xs : Array α) :
    (bringForward inFront xs).1.toList.Perm xs.toList := by
  unfold bringForward
  suffices h : ∀ (is : List Nat) (s : Array α × Nat),
      (is.foldl (admitOne inFront) s).1.toList.Perm s.1.toList from h _ (xs, 0)
  intro is
  induction is with
  | nil => exact fun s => .refl _
  | cons i is ih => exact fun s => (ih _).trans (admitOne_perm inFront s i)

theorem divideAt_perm (inFront : α → Bool) (pivot : α) (xs : List α) :
    (divideAt inFront pivot xs).toList.Perm (pivot :: xs) := by
  cases xs with
  | nil => exact .refl _
  | cons x xs =>
    have h : (bringForward inFront (xs ++ [x]).toArray).1.toList.Perm (x :: xs) :=
      (bringForward_perm inFront _).trans (List.perm_append_singleton x xs)
    simp only [divideAt]
    generalize bringForward inFront (xs ++ [x]).toArray = s at h
    have hs : (s.1.toList.take s.2 ++ pivot :: s.1.toList.drop s.2).Perm (pivot :: x :: xs) :=
      List.perm_middle.trans (.cons _ (by rw [List.take_append_drop]; exact h))
    cases hl : (s.1.toList.take s.2).getLast? with
    | none =>
      rw [List.getLast?_eq_none_iff.mp hl] at hs
      exact hs
    | some last =>
      obtain ⟨front, hf⟩ := List.getLast?_eq_some_iff.mp hl
      rw [hf] at hs ⊢
      simp only [Division.toList, List.dropLast_concat]
      exact ((List.perm_append_singleton last front).symm.append_right _).trans hs

/-- Takes the element out of a list that stands for it. The first element takes its
place. -/
def pickPivot (xs : List α) : Option (α × List α) :=
  let ys := xs.toArray
  match (ys.swapIfInBounds 0 (delegate key ys 0 ys.size)).toList with
  | [] => none
  | pivot :: rest => some (pivot, rest)

theorem pickPivot_perm {xs rest : List α} {pivot : α}
    (h : pickPivot key xs = some (pivot, rest)) : (pivot :: rest).Perm xs := by
  have hp := swapIfInBounds_perm xs.toArray 0 (delegate key xs.toArray 0 xs.toArray.size)
  simp only [pickPivot] at h
  split at h
  · simp at h
  · rename_i hs
    cases h
    rwa [hs] at hp

/-! ### Sorting -/

/-- Divides a list again and again, at most `depth` times on the way to any piece. All
keys of a piece behind a pivot are at least as great as `least`, the key of that pivot;
if the next pivot has the same key, the elements with this key are in place once they
are divided off. -/
def coarseSort : Nat → Option Nat → List α → List α
  | 0, _, xs => if xs.length ≤ 16 then xs else heapSort key xs
  | depth + 1, least, xs =>
    if xs.length ≤ 16 then xs
    else
      match pickPivot key xs with
      | none => xs
      | some (pivot, rest) =>
        if least.any (key pivot ≤ ·) then
          let d := divideAt (fun x => decide (key x ≤ key pivot)) pivot rest
          d.front ++ d.pivot :: coarseSort depth none d.back
        else
          let d := divideAt (fun x => decide (key x < key pivot)) pivot rest
          coarseSort depth least d.front ++ d.pivot :: coarseSort depth (some (key pivot)) d.back

/-- Whether neighbours stand in a relation. -/
def isChain (r : α → α → Bool) (xs : List α) : Bool :=
  (xs.zip xs.tail).all fun (x, y) => r x y

/-- Whether the list is sorted without a division. -/
def isSimple (xs : List α) : Bool :=
  decide (xs.length ≤ 20) || isChain (fun x y => decide (key x ≤ key y)) xs ||
    isChain (fun x y => decide (key y < key x)) xs

/-- The list in ascending order of the keys. -/
def sortOn (xs : List α) : List α :=
  let coarse := if isSimple key xs then xs else coarseSort key (2 * xs.length.log2) none xs
  coarse.mergeSort fun x y => decide (key x ≤ key y)

theorem coarseSort_perm (depth : Nat) (least : Option Nat) (xs : List α) :
    (coarseSort key depth least xs).Perm xs := by
  induction depth generalizing least xs with
  | zero =>
    unfold coarseSort
    split
    · exact .refl _
    · exact heapSort_perm key xs
  | succ depth ih =>
    unfold coarseSort
    split
    · exact .refl _
    · split
      · exact .refl _
      · rename_i pivot rest hp
        have hd := fun inFront =>
          (divideAt_perm inFront pivot rest).trans (pickPivot_perm key hp)
        split
        · exact ((List.Perm.cons _ (ih _ _)).append_left _).trans (hd _)
        · exact ((ih _ _).append (.cons _ (ih _ _))).trans (hd _)

/-- Sorting keeps the elements. -/
theorem sortOn_perm (xs : List α) : (sortOn key xs).Perm xs := by
  unfold sortOn
  refine (List.mergeSort_perm _ _).trans ?_
  split
  · exact .refl _
  · exact coarseSort_perm key _ _ xs

/-- Sorting puts the keys in ascending order. -/
theorem pairwise_sortOn (xs : List α) :
    (sortOn key xs).Pairwise fun x y => key x ≤ key y := by
  refine (List.pairwise_mergeSort ?_ ?_ _).imp fun hxy => by simpa using hxy
  · intro x y z hxy hyz
    simp only [decide_eq_true_eq] at *
    omega
  · intro x y
    simp only [Bool.or_eq_true, decide_eq_true_eq]
    omega

end Sorting

end Dataflow
