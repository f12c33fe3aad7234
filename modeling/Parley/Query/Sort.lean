/-
  Parley.Query.Sort
  ────────────────────────────────
  **SORTING.**

  Each element in turn is moved before those that it is less than, from the
  right.  Elements that compare as equal keep their order; and since only
  neighbours are compared, the result is defined for comparisons that are no
  consistent order too.
-/

namespace Parley.Query

/-- An element put into a row that is kept from right to left. -/
def insertFromRight (less : α → α → Bool) (x : α) : List α → List α
  | [] => [x]
  | y :: rest => if less x y then y :: insertFromRight less x rest else x :: y :: rest

/-- A sorted row with more elements. -/
def insertAll (less : α → α → Bool) (sorted xs : List α) : List α :=
  (xs.foldl (fun row x => insertFromRight less x row) sorted.reverse).reverse

/-- The elements sorted by a comparison. -/
def stableSort (less : α → α → Bool) (xs : List α) : List α :=
  insertAll less [] xs

/-- Equal elements stay in order, and an element that is equal to all keeps the others apart. -/
example : stableSort (fun a b : Nat × Nat => a.1 < b.1) [(2, 0), (1, 1), (2, 2), (1, 3)]
      = [(1, 1), (1, 3), (2, 0), (2, 2)]
    ∧ stableSort (fun a b : Nat => a < b && a ≠ 0 && b ≠ 0) [2, 0, 1] = [2, 0, 1] := by decide

theorem insertFromRight_perm (less : α → α → Bool) (x : α) (row : List α) :
    (insertFromRight less x row).Perm (x :: row) := by
  induction row with
  | nil => exact List.Perm.refl _
  | cons y rest ih =>
    unfold insertFromRight
    split
    · exact (ih.cons y).trans (List.Perm.swap x y rest)
    · exact List.Perm.refl _

/-- Inserting loses nothing and adds nothing. -/
theorem insertAll_perm (less : α → α → Bool) (sorted xs : List α) :
    (insertAll less sorted xs).Perm (sorted ++ xs) := by
  have step : ∀ (ys row : List α),
      (ys.foldl (fun row x => insertFromRight less x row) row).Perm (ys ++ row) := by
    intro ys
    induction ys with
    | nil => intro row; exact List.Perm.refl _
    | cons y ys ih =>
      intro row
      refine (ih _).trans ?_
      refine ((insertFromRight_perm less y row).append_left ys).trans ?_
      exact List.perm_middle
  refine (List.reverse_perm _).trans ((step xs sorted.reverse).trans ?_)
  exact ((List.reverse_perm sorted).append_left xs).trans List.perm_append_comm

/-- Sorting loses nothing and adds nothing. -/
theorem stableSort_perm (less : α → α → Bool) (xs : List α) : (stableSort less xs).Perm xs :=
  insertAll_perm less [] xs

end Parley.Query
