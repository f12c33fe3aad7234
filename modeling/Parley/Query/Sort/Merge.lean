/-
  Parley.Query.Sort.Merge
  ────────────────────────────────
  **MERGING SORTED ROWS.**

  Two sorted rows are merged from the front, from the back, or from both ends at
  once.  The comparisons give the sides from which the elements are taken
  (`Side`), and `interleave` takes them from there.  So for any comparison, an
  order or not, a merge loses nothing and adds nothing (`interleave_perm`).

  The two ends of a merge from both ends meet if the comparison is a consistent
  order.  If they do not meet, the merge breaks down and there is no result.
-/
import Parley.Query.Sort

namespace Parley.Query

/-! ## §1. Sides. -/

/-- One of two rows. -/
inductive Side where
  | left
  | right
deriving DecidableEq, Repr

/-- The elements of two rows, taken from the sides that are given.  What is left over follows, that
of the left row first. -/
def interleave : List Side → List α → List α → List α
  | .left :: sides, x :: xs, ys => x :: interleave sides xs ys
  | .right :: sides, xs, y :: ys => y :: interleave sides xs ys
  | _, xs, ys => xs ++ ys

theorem interleave_perm (sides : List Side) (xs ys : List α) :
    (interleave sides xs ys).Perm (xs ++ ys) := by
  fun_induction interleave sides xs ys with
  | case1 sides x xs ys ih => exact ih.cons x
  | case2 sides xs y ys ih => exact (ih.cons y).trans List.perm_middle.symm
  | case3 => exact List.Perm.refl _

/-- The sides of the first elements of a merge, at most so many.  Of equal elements the left one is
the first. -/
def frontSides (less : α → α → Bool) : Nat → List α → List α → List Side
  | n + 1, x :: xs, y :: ys =>
    if less y x then .right :: frontSides less n (x :: xs) ys
    else .left :: frontSides less n xs (y :: ys)
  | _, _, _ => []

/-- The sides of the last elements of a merge, the last first, for rows from right to left.  Of
equal elements the right one is the last. -/
def backSides (less : α → α → Bool) : Nat → List α → List α → List Side
  | n + 1, x :: xs, y :: ys =>
    if less y x then .left :: backSides less n xs (y :: ys)
    else .right :: backSides less n (x :: xs) ys
  | _, _, _ => []

/-! ## §2. Merges. -/

/-- Merge two rows, beginning at the end where the shorter one is used up the sooner. -/
def merge (less : α → α → Bool) (xs ys : List α) : List α :=
  let count := xs.length + ys.length
  if xs.length ≤ ys.length then interleave (frontSides less count xs ys) xs ys
  else
    (interleave (backSides less count xs.reverse ys.reverse) xs.reverse ys.reverse).reverse

theorem merge_perm (less : α → α → Bool) (xs ys : List α) :
    (merge less xs ys).Perm (xs ++ ys) := by
  unfold merge
  dsimp only
  split
  · exact interleave_perm _ _ _
  · refine (List.reverse_perm _).trans ((interleave_perm _ _ _).trans ?_)
    exact (List.reverse_perm xs).append (List.reverse_perm ys)

/-- The sides from which a row and one that is as long, or longer by one, are merged from both ends
at once: as many elements from each end as the shorter row has, and the one between them if there is
one. -/
def endSides (less : α → α → Bool) (xs ys : List α) : List Side :=
  let front := frontSides less xs.length xs ys
  let back := (backSides less xs.length xs.reverse ys.reverse).reverse
  let middle := if front.count .left + back.count .left < xs.length then Side.left else .right
  front ++ (if xs.length < ys.length then middle :: back else back)

/-- Merge two rows from both ends at once.  There is no result if the elements taken from the left
row are not all that it has. -/
def mergeBothEnds? (less : α → α → Bool) (xs ys : List α) : Option (List α) :=
  if (endSides less xs ys).count .left = xs.length then some (interleave (endSides less xs ys) xs ys)
  else none

theorem mergeBothEnds?_perm {less : α → α → Bool} {xs ys zs : List α}
    (h : mergeBothEnds? less xs ys = some zs) : zs.Perm (xs ++ ys) := by
  obtain ⟨-, hzs⟩ := Option.ite_none_right_eq_some.mp h
  cases hzs
  exact interleave_perm _ _ _

/-- Each merge gives the one order there is, and keeps equal elements apart by their rows.  With an
element that is equal to all the two ends may miss each other. -/
example :
    let less := fun a b : Nat × Nat => decide (a.1 < b.1)
    merge less [(1, 0), (3, 0)] [(1, 1), (2, 1), (3, 1)] = [(1, 0), (1, 1), (2, 1), (3, 0), (3, 1)]
    ∧ merge less [(1, 0), (2, 0), (3, 0)] [(1, 1), (3, 1)]
      = [(1, 0), (1, 1), (2, 0), (3, 0), (3, 1)]
    ∧ mergeBothEnds? less [(1, 0), (3, 0)] [(1, 1), (2, 1), (3, 1)]
      = some [(1, 0), (1, 1), (2, 1), (3, 0), (3, 1)]
    ∧ mergeBothEnds? (fun a b : Nat => a < b && a ≠ 0 && b ≠ 0) [5, 0] [1, 0] = none := by decide

end Parley.Query
