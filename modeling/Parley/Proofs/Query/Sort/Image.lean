/-
  Parley.Proofs.Query.Sort.Image
  ────────────────────────────────
  **SORTING IMAGES.**

  A sort sees its elements through the comparison only.  So it makes no
  difference whether elements are replaced by others that compare alike before
  they are sorted or afterwards: every step of the sort commutes with `map`, up
  to `mergeSort?_map`.
-/
import Parley.Query.Sort.Partition
import Parley.Proofs.Query.Order

namespace Parley.Query

section Image

variable (less : α → α → Bool) (f : β → α)

/-! ## §1. Merges. -/

theorem interleave_map (sides : List Side) (xs ys : List β) :
    interleave sides (xs.map f) (ys.map f) = (interleave sides xs ys).map f := by
  fun_induction interleave sides xs ys with
  | case1 sides x xs ys ih => simp [interleave, ih]
  | case2 sides xs y ys ih => simp [interleave, ih]
  | case3 sides xs ys hleft hright =>
    rw [List.map_append]
    cases sides with
    | nil => rfl
    | cons side sides =>
      cases side with
      | left =>
        cases xs with
        | nil => rfl
        | cons x xs => exact absurd rfl (hleft sides x xs rfl)
      | right =>
        cases ys with
        | nil => simp [interleave]
        | cons y ys => exact absurd rfl (hright sides y ys rfl)

theorem frontSides_map (n : Nat) (xs ys : List β) :
    frontSides less n (xs.map f) (ys.map f)
      = frontSides (fun a b => less (f a) (f b)) n xs ys := by
  induction n generalizing xs ys with
  | zero => rfl
  | succ n ih =>
    cases xs with
    | nil => rfl
    | cons x xs =>
      cases ys with
      | nil => rfl
      | cons y ys =>
        have hright := ih (x :: xs) ys
        have hleft := ih xs (y :: ys)
        simp only [List.map_cons] at hright hleft ⊢
        simp only [frontSides, hright, hleft]

theorem backSides_map (n : Nat) (xs ys : List β) :
    backSides less n (xs.map f) (ys.map f)
      = backSides (fun a b => less (f a) (f b)) n xs ys := by
  induction n generalizing xs ys with
  | zero => rfl
  | succ n ih =>
    cases xs with
    | nil => rfl
    | cons x xs =>
      cases ys with
      | nil => rfl
      | cons y ys =>
        have hleft := ih xs (y :: ys)
        have hright := ih (x :: xs) ys
        simp only [List.map_cons] at hright hleft ⊢
        simp only [backSides, hright, hleft]

theorem merge_map (xs ys : List β) :
    merge less (xs.map f) (ys.map f) = (merge (fun a b => less (f a) (f b)) xs ys).map f := by
  unfold merge
  simp only [List.length_map, ← List.map_reverse, frontSides_map, backSides_map, interleave_map]
  split
  · rfl
  · rw [List.map_reverse]

theorem endSides_map (xs ys : List β) :
    endSides less (xs.map f) (ys.map f) = endSides (fun a b => less (f a) (f b)) xs ys := by
  unfold endSides
  simp only [List.length_map, ← List.map_reverse, frontSides_map, backSides_map]

theorem mergeBothEnds?_map (xs ys : List β) :
    mergeBothEnds? less (xs.map f) (ys.map f)
      = (mergeBothEnds? (fun a b => less (f a) (f b)) xs ys).map (List.map f) := by
  unfold mergeBothEnds?
  rw [endSides_map, List.length_map, interleave_map]
  split
  · rfl
  · rfl

/-! ## §2. Short rows. -/

theorem sortTwo_map (a b : β) :
    sortTwo less (f a) (f b) = (sortTwo (fun a b => less (f a) (f b)) a b).map f := by
  unfold sortTwo
  split
  · rfl
  · rfl

theorem pairSides_map (xs ys : List β) :
    pairSides less (xs.map f) (ys.map f) = pairSides (fun a b => less (f a) (f b)) xs ys := by
  -- Only for two pairs is there anything to compare.
  rcases xs with _ | ⟨a, _ | ⟨b, _ | ⟨_, _⟩⟩⟩ <;> rcases ys with _ | ⟨c, _ | ⟨d, _ | ⟨_, _⟩⟩⟩ <;> rfl

theorem sortFour_map (a b c d : β) :
    sortFour less (f a) (f b) (f c) (f d)
      = (sortFour (fun a b => less (f a) (f b)) a b c d).map f := by
  unfold sortFour
  simp only [sortTwo_map, pairSides_map, interleave_map]

theorem sortHalf_map (xs : List β) :
    sortHalf less (xs.map f) = (sortHalf (fun a b => less (f a) (f b)) xs).map f := by
  match xs with
  | [] => exact stableSort_map f []
  | [a] => exact stableSort_map f [a]
  | [a, b] => exact stableSort_map f [a, b]
  | [a, b, c] => exact stableSort_map f [a, b, c]
  | a :: b :: c :: d :: rest =>
    show insertAll less (sortFour less (f a) (f b) (f c) (f d)) (rest.map f) = _
    rw [sortFour_map, insertAll_map]
    rfl

theorem sortShort?_map (xs : List β) :
    sortShort? less (xs.map f)
      = (sortShort? (fun a b => less (f a) (f b)) xs).map (List.map f) := by
  unfold sortShort?
  simp only [List.length_map, ← List.map_take, ← List.map_drop]
  split
  · rw [stableSort_map, stableSort_map, mergeBothEnds?_map]
  · rw [sortHalf_map, sortHalf_map, mergeBothEnds?_map]

/-! ## §3. Runs. -/

theorem goingOn_map (down : Bool) (x : β) (xs : List β) :
    goingOn less down (f x) (xs.map f) = goingOn (fun a b => less (f a) (f b)) down x xs := by
  induction xs generalizing x with
  | nil => rfl
  | cons y rest ih => simp only [List.map_cons, goingOn, ih]

theorem stretch_map (xs : List β) :
    stretch less (xs.map f) = stretch (fun a b => less (f a) (f b)) xs := by
  cases xs with
  | nil => rfl
  | cons x xs =>
    cases xs with
    | nil => rfl
    | cons y rest => simp only [List.map_cons, stretch, goingOn_map]

/-- The image of a run. -/
def SortRun.image (run : SortRun β) : SortRun α :=
  ⟨run.elements.map f, run.inOrder⟩

@[simp] theorem SortRun.length_image (run : SortRun β) :
    (run.image f).elements.length = run.elements.length :=
  List.length_map f

theorem nextRun?_map (atOnce : Bool) (long : Nat) (xs : List β) :
    nextRun? less atOnce long (xs.map f)
      = (nextRun? (fun a b => less (f a) (f b)) atOnce long xs).map
          (Prod.map (SortRun.image f) (List.map f)) := by
  unfold nextRun?
  rw [stretch_map]
  simp only [← List.map_take, ← List.map_drop, ← List.map_reverse, sortShort?_map]
  split
  · split
    · rfl
    · rfl
  · split
    · cases sortShort? (fun a b => less (f a) (f b)) (xs.take shortLength) <;> rfl
    · rfl

/-- The image of a stack of runs. -/
def imageStack (stack : List (SortRun β × Nat)) : List (SortRun α × Nat) :=
  stack.map (Prod.map (SortRun.image f) id)

@[simp] theorem imageStack_nil : imageStack f ([] : List (SortRun β × Nat)) = [] := rfl

/-- Without a step or a rest the runs are joined. -/
theorem joinAll?_of_end {sort : List α → Option (List α)} {atOnce : Bool} {count steps : Nat}
    (stack : List (SortRun α × Nat)) (last : SortRun α) {position : Nat} {rest : List α}
    (hend : steps = 0 ∨ rest = []) :
    joinAll? less sort atOnce count steps stack last position rest
      = (joinDeeper? (SortRun.join? less sort) 0 stack last).map fun joined =>
          ⟨joined.1.elements ++ rest, joined.1.inOrder && rest.isEmpty⟩ := by
  -- The recursion ends here, whichever of the two has come to an end.
  rcases hend with rfl | rfl
  · unfold joinAll?
    cases joinDeeper? (SortRun.join? less sort) 0 stack last <;> rfl
  · cases steps with
    | zero =>
      unfold joinAll?
      cases joinDeeper? (SortRun.join? less sort) 0 stack last <;> rfl
    | succ steps =>
      unfold joinAll?
      cases joinDeeper? (SortRun.join? less sort) 0 stack last <;> rfl

section Method

variable {sort : List α → Option (List α)} {sort' : List β → Option (List β)}
  (hsort : ∀ xs, sort (xs.map f) = (sort' xs).map (List.map f))
include hsort

theorem SortRun.sorted?_map (run : SortRun β) :
    (run.image f).sorted? sort = (run.sorted? sort').map (List.map f) := by
  unfold SortRun.sorted? SortRun.image
  split
  · rfl
  · exact hsort _

theorem SortRun.join?_map (a b : SortRun β) :
    SortRun.join? less sort (a.image f) (b.image f)
      = (SortRun.join? (fun a b => less (f a) (f b)) sort' a b).map (SortRun.image f) := by
  unfold SortRun.join?
  rw [sorted?_map f hsort, sorted?_map f hsort]
  show (if a.inOrder || b.inOrder then _ else _) = _
  split
  · cases a.sorted? sort' with
    | none => rfl
    | some xs =>
      cases b.sorted? sort' with
      | none => rfl
      | some ys =>
        show some (SortRun.mk (merge less (xs.map f) (ys.map f)) true) = _
        rw [merge_map]
        rfl
  · show some (SortRun.mk (a.elements.map f ++ b.elements.map f) false) = _
    rw [← List.map_append]
    rfl

theorem joinDeeper?_map (depth : Nat) (stack : List (SortRun β × Nat)) (last : SortRun β) :
    joinDeeper? (SortRun.join? less sort) depth (imageStack f stack) (last.image f)
      = (joinDeeper? (SortRun.join? (fun a b => less (f a) (f b)) sort') depth stack last).map
          (Prod.map (SortRun.image f) (imageStack f)) := by
  induction stack generalizing last with
  | nil => rfl
  | cons top stack ih =>
    obtain ⟨before, d⟩ := top
    show (if depth ≤ d then _ else _) = Option.map _ (if depth ≤ d then _ else _)
    rw [SortRun.join?_map less f hsort]
    split
    · cases SortRun.join? (fun a b => less (f a) (f b)) sort' before last with
      | none => rfl
      | some joined => exact ih joined
    · rfl

theorem joinAll?_map (atOnce : Bool) (count steps : Nat) (stack : List (SortRun β × Nat))
    (last : SortRun β) (position : Nat) (rest : List β) :
    joinAll? less sort atOnce count steps (imageStack f stack) (last.image f) position (rest.map f)
      = (joinAll? (fun a b => less (f a) (f b)) sort' atOnce count steps stack last position
          rest).map (SortRun.image f) := by
  -- Over the steps.  Without one, or without a rest, the runs are joined.
  induction steps generalizing stack last position rest with
  | zero =>
    rw [joinAll?_of_end _ _ _ (.inl rfl), joinAll?_of_end _ _ _ (.inl rfl), joinDeeper?_map less f hsort]
    cases joinDeeper? (SortRun.join? (fun a b => less (f a) (f b)) sort') 0 stack last with
    | none => rfl
    | some joined => simp [SortRun.image]
  | succ steps ih =>
    cases rest with
    | nil =>
      rw [List.map_nil, joinAll?_of_end _ _ _ (.inr rfl), joinAll?_of_end _ _ _ (.inr rfl),
        joinDeeper?_map less f hsort]
      cases joinDeeper? (SortRun.join? (fun a b => less (f a) (f b)) sort') 0 stack last with
      | none => rfl
      | some joined => simp [SortRun.image]
    | cons x rest =>
      rw [List.map_cons, joinAll?, joinAll?, ← List.map_cons, nextRun?_map]
      cases nextRun? (fun a b => less (f a) (f b)) atOnce (longRun count) (x :: rest) with
      | none => rfl
      | some cut =>
        obtain ⟨next, rest'⟩ := cut
        simp only [Option.map_some, Prod.map_apply, SortRun.length_image]
        rw [joinDeeper?_map less f hsort]
        cases joinDeeper? (SortRun.join? (fun a b => less (f a) (f b)) sort')
            (nodeDepth count (position - last.elements.length) position
              (position + next.elements.length)) stack last with
        | none => rfl
        | some joined =>
          obtain ⟨run, stack'⟩ := joined
          exact ih ((run, _) :: stack') next _ rest'

theorem sortRuns?_map (atOnce : Bool) (xs : List β) :
    sortRuns? less sort atOnce (xs.map f)
      = (sortRuns? (fun a b => less (f a) (f b)) sort' atOnce xs).map (List.map f) := by
  unfold sortRuns?
  rw [nextRun?_map, List.length_map]
  cases nextRun? (fun a b => less (f a) (f b)) atOnce (longRun xs.length) xs with
  | none => rfl
  | some cut =>
    obtain ⟨first, rest⟩ := cut
    have hjoined := joinAll?_map less f hsort atOnce xs.length rest.length [] first
      first.elements.length rest
    rw [imageStack_nil] at hjoined
    simp only [Option.map_some, Prod.map_apply, SortRun.length_image, List.length_map]
    rw [hjoined]
    cases joinAll? (fun a b => less (f a) (f b)) sort' atOnce xs.length rest.length [] first
        first.elements.length rest with
    | none => rfl
    | some run => exact SortRun.sorted?_map f hsort run

end Method

/-! ## §4. Any row. -/

theorem pivotPosition_map (xs : List β) :
    pivotPosition less (xs.map f).toArray
      = pivotPosition (fun a b => less (f a) (f b)) xs.toArray := by
  unfold pivotPosition
  simp only [List.size_toArray, List.length_map]
  congr 1
  funext i j
  simp only [List.getElem?_toArray, List.getElem?_map]
  cases xs[i]? with
  | none => rfl
  | some x => cases xs[j]? <;> rfl

theorem sortByParts?_map (times : Nat) (bound : Option β) (xs : List β) :
    sortByParts? less times (bound.map f) (xs.map f)
      = (sortByParts? (fun a b => less (f a) (f b)) times bound xs).map (List.map f) := by
  induction times generalizing bound xs with
  | zero =>
    have hleft : ∀ xs : List β, some (xs.map f) = (some xs).map (List.map f) := fun _ => rfl
    unfold sortByParts?
    rw [List.length_map, sortShort?_map, sortRuns?_map less f hleft]
    split
    · rfl
    · rfl
  | succ times ih =>
    unfold sortByParts?
    rw [List.length_map, sortShort?_map, pivotPosition_map]
    split
    · rfl
    · simp only [← List.map_drop, ← List.map_take]
      cases xs.drop (pivotPosition (fun a b => less (f a) (f b)) xs.toArray) with
      | nil => rfl
      | cons pivot after =>
        have hbound : (bound.map f).any (fun b => !less b (f pivot))
            = bound.any fun b => !less (f b) (f pivot) := by
          cases bound <;> rfl
        generalize xs.take (pivotPosition (fun a b => less (f a) (f b)) xs.toArray) = before
        simp only [List.map_cons, List.filter_map, ← List.map_append, hbound, List.isEmpty_map,
          Function.comp_def]
        split
        · generalize before.filter (fun x => less (f pivot) (f x))
              ++ after.filter (fun x => less (f pivot) (f x)) = greater
          rw [← Option.map_none (f := f), ih]
          cases sortByParts? (fun a b => less (f a) (f b)) times none greater with
          | none => rfl
          | some sorted => simp
        · generalize before.filter (fun x => less (f x) (f pivot))
              ++ after.filter (fun x => less (f x) (f pivot)) = smaller
          have hrest := ih (some pivot) (before.filter (fun x => !less (f x) (f pivot))
            ++ pivot :: after.filter (fun x => !less (f x) (f pivot)))
          simp only [List.map_append, List.map_cons, Option.map_some] at hrest
          rw [ih, hrest]
          cases sortByParts? (fun a b => less (f a) (f b)) times bound smaller with
          | none => rfl
          | some low =>
            cases sortByParts? (fun a b => less (f a) (f b)) times (some pivot)
                (before.filter (fun x => !less (f x) (f pivot))
                  ++ pivot :: after.filter (fun x => !less (f x) (f pivot))) with
            | none => rfl
            | some high => simp

theorem partSort?_map (xs : List β) :
    partSort? less (xs.map f)
      = (partSort? (fun a b => less (f a) (f b)) xs).map (List.map f) := by
  unfold partSort?
  rw [List.length_map]
  exact sortByParts?_map less f _ none xs

/-- The sort sees its elements through the comparison only. -/
theorem mergeSort?_map (xs : List β) :
    mergeSort? less (xs.map f)
      = (mergeSort? (fun a b => less (f a) (f b)) xs).map (List.map f) := by
  unfold mergeSort?
  rw [List.length_map]
  split
  · rw [stableSort_map]
    rfl
  · exact sortRuns?_map less f (partSort?_map less f) _ xs

end Image

end Parley.Query
