/-
  Parley.Query.Sort.Short
  ────────────────────────────────
  **SORTING SHORT ROWS.**

  A row of up to thirty-two elements is sorted in two halves, which are merged
  from both ends.  A half begins with four elements that five comparisons sort;
  the others are inserted one by one.
-/
import Parley.Query.Sort.Merge

namespace Parley.Query

/-- Two elements in order. -/
def sortTwo (less : α → α → Bool) (a b : α) : List α :=
  if less b a then [b, a] else [a, b]

/-- The sides from which two sorted pairs are merged: first it is seen which of them has the least
and which the greatest element, then how the other two stand to each other. -/
def pairSides (less : α → α → Bool) : List α → List α → List Side
  | [a, b], [c, d] =>
    match less c a, less d b with
    | false, false => if less c b then [.left, .right] else [.left, .left]
    | false, true => [.left, .right, .right]
    | true, false => [.right]
    | true, true => if less d a then [.right, .right] else [.right, .left, .right]
  | _, _ => []

/-- Four elements in order. -/
def sortFour (less : α → α → Bool) (a b c d : α) : List α :=
  let xs := sortTwo less a b
  let ys := sortTwo less c d
  interleave (pairSides less xs ys) xs ys

/-- Half of a row in order. -/
def sortHalf (less : α → α → Bool) : List α → List α
  | a :: b :: c :: d :: rest => insertAll less (sortFour less a b c d) rest
  | xs => stableSort less xs

/-- The greatest length of a short row. -/
def shortLength : Nat := 32

/-- A short row in order.  Halves of less than four elements are sorted by insertion alone.  There is
no result if the halves cannot be merged. -/
def sortShort? (less : α → α → Bool) (xs : List α) : Option (List α) :=
  let half := xs.length / 2
  let sort := if xs.length < 8 then stableSort less else sortHalf less
  mergeBothEnds? less (sort (xs.take half)) (sort (xs.drop half))

/-- Equal elements stay in order; with an element that is equal to all the halves may not fit
together, and how it stands to the others hangs on which were compared. -/
example :
    sortShort? (fun a b : Nat × Nat => a.1 < b.1)
        [(3, 0), (1, 1), (2, 2), (1, 3), (3, 4), (2, 5), (1, 6), (2, 7), (3, 8)]
      = some [(1, 1), (1, 3), (1, 6), (2, 2), (2, 5), (2, 7), (3, 0), (3, 4), (3, 8)]
    ∧ sortShort? (fun a b : Nat => a < b && a ≠ 0 && b ≠ 0) [3, 0, 1] = none
    ∧ sortFour (fun a b : Nat => a < b && a ≠ 0 && b ≠ 0) 3 0 1 4 = [1, 3, 0, 4] := by decide

/-! ## The same elements. -/

theorem sortTwo_perm (less : α → α → Bool) (a b : α) : (sortTwo less a b).Perm [a, b] := by
  unfold sortTwo
  split
  · exact List.Perm.swap a b []
  · exact List.Perm.refl _

theorem sortFour_perm (less : α → α → Bool) (a b c d : α) :
    (sortFour less a b c d).Perm [a, b, c, d] :=
  (interleave_perm _ _ _).trans ((sortTwo_perm less a b).append (sortTwo_perm less c d))

theorem sortHalf_perm (less : α → α → Bool) (xs : List α) : (sortHalf less xs).Perm xs := by
  fun_cases sortHalf less xs with
  | case1 a b c d rest =>
    exact (insertAll_perm _ _ _).trans ((sortFour_perm less a b c d).append_right rest)
  | case2 => exact stableSort_perm less _

/-- A short row keeps its elements. -/
theorem sortShort?_perm {less : α → α → Bool} {xs ys : List α} (h : sortShort? less xs = some ys) :
    ys.Perm xs := by
  refine (mergeBothEnds?_perm h).trans ?_
  split
  · refine ((stableSort_perm _ _).append (stableSort_perm _ _)).trans ?_
    rw [List.take_append_drop]
  · refine ((sortHalf_perm _ _).append (sortHalf_perm _ _)).trans ?_
    rw [List.take_append_drop]

end Parley.Query
