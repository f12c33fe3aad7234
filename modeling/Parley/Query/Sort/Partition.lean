/-
  Parley.Query.Sort.Partition
  ────────────────────────────────
  **SORTING LONG ROWS.**

  A long row is parted around one of its elements, the pivot, into what is less
  and what is not; each part keeps its order and is sorted in the same way.  A
  row with many equal elements is parted into what is not greater and what is.
  When the parts do not get short soon enough, runs are merged instead.

  A row of up to twenty elements is sorted by insertion; a longer one is merged
  from runs (`mergeSort?`).  There is a result for every consistent order; for
  other comparisons the sort may break down.
-/
import Parley.Query.Sort.Runs

namespace Parley.Query

/-! ## §1. The pivot. -/

/-- The middle one of three positions. -/
def medianOfThree (less : Nat → Nat → Bool) (a b c : Nat) : Nat :=
  if less a b = less a c then (if less b c = less a b then b else c) else a

/-- The middle one of three positions, each of which stands for as many positions as are given: a
large number of them is represented by a middle one of its own. -/
def median (less : Nat → Nat → Bool) (a b c count : Nat) : Nat :=
  if count < 8 then medianOfThree less a b c
  else
    let eighth := count / 8
    let middle (x : Nat) : Nat := median less x (x + eighth * 4) (x + eighth * 7) eighth
    medianOfThree less (middle a) (middle b) (middle c)
termination_by count
decreasing_by all_goals omega

/-- The position of the pivot of a row. -/
def pivotPosition (less : α → α → Bool) (xs : Array α) : Nat :=
  let eighth := xs.size / 8
  let lessAt (i j : Nat) : Bool :=
    match xs[i]?, xs[j]? with
    | some x, some y => less x y
    | _, _ => false
  median lessAt 0 (eighth * 4) (eighth * 7) eighth

/-! ## §2. Parting. -/

/-- A row sorted by parting it, at most so many times one after the other.  The bound is the pivot
before the row, if there is one that no element is less than. -/
def sortByParts? (less : α → α → Bool) : Nat → Option α → List α → Option (List α)
  | 0, _, xs =>
    if xs.length ≤ shortLength then sortShort? less xs else sortRuns? less some true xs
  | times + 1, bound, xs =>
    if xs.length ≤ shortLength then sortShort? less xs
    else
      let position := pivotPosition less xs.toArray
      match xs.drop position with
      | [] => some xs
      | pivot :: after =>
        let before := xs.take position
        let smaller := before.filter (less · pivot) ++ after.filter (less · pivot)
        if bound.any (fun b => !less b pivot) || smaller.isEmpty then
          match sortByParts? less times none
              (before.filter (less pivot ·) ++ after.filter (less pivot ·)) with
          | none => none
          | some greater => some (before.filter (!less pivot ·)
              ++ pivot :: after.filter (!less pivot ·) ++ greater)
        else
          match sortByParts? less times bound smaller,
            sortByParts? less times (some pivot)
              (before.filter (!less · pivot) ++ pivot :: after.filter (!less · pivot)) with
          | some low, some high => some (low ++ high)
          | _, _ => none

/-- A row sorted by parting it, as often as is reasonable for its length. -/
def partSort? (less : α → α → Bool) (xs : List α) : Option (List α) :=
  sortByParts? less (2 * xs.length.log2) none xs

/-! ## §3. Any row. -/

/-- A row sorted by the method for its length.  Elements that are equal to all make an order
inconsistent; then the result, if there is one, hangs on which elements are compared. -/
def mergeSort? (less : α → α → Bool) (xs : List α) : Option (List α) :=
  if xs.length ≤ 20 then some (stableSort less xs)
  else sortRuns? less (partSort? less) (xs.length ≤ 2 * shortLength) xs

/-! ## §4. The same elements. -/

/-- Two stretches, each parted by a test, have the elements that they had. -/
theorem parted_perm (test : α → Bool) (xs ys : List α) :
    ((xs.filter test ++ ys.filter test)
      ++ (xs.filter (!test ·) ++ ys.filter (!test ·))).Perm (xs ++ ys) := by
  rw [← List.filter_append, ← List.filter_append]
  exact List.filter_append_perm test (xs ++ ys)

theorem sortByParts?_perm {less : α → α → Bool} {times : Nat} {bound : Option α} {xs ys : List α}
    (h : sortByParts? less times bound xs = some ys) : ys.Perm xs := by
  induction times generalizing bound xs ys with
  | zero =>
    unfold sortByParts? at h
    split at h
    · exact sortShort?_perm h
    · refine sortRuns?_perm (fun xs ys hys => ?_) h
      cases hys
      exact List.Perm.refl _
  | succ times ih =>
    unfold sortByParts? at h
    split at h
    · exact sortShort?_perm h
    · dsimp only at h
      have whole := List.take_append_drop (pivotPosition less xs.toArray) xs
      generalize xs.take (pivotPosition less xs.toArray) = before at whole h
      split at h
      · cases h
        exact List.Perm.refl _
      · next pivot after hdrop =>
        rw [hdrop] at whole
        have out : xs.Perm (pivot :: (before ++ after)) := whole ▸ List.perm_middle
        refine List.Perm.trans ?_ out.symm
        split at h
        · split at h
          · cases h
          · rename_i greater hgreater
            cases h
            refine (List.Perm.append_left _ (ih hgreater)).trans ?_
            have parted := parted_perm (fun x => less pivot x) before after
            refine List.Perm.trans ?_ ((List.perm_append_comm.trans parted).cons pivot)
            rw [List.append_assoc, List.append_assoc]
            exact List.perm_middle
        · split at h
          · rename_i low high hlow hhigh
            cases h
            refine ((ih hlow).append (ih hhigh)).trans ?_
            have parted := parted_perm (fun x => less x pivot) before after
            refine List.Perm.trans ?_ (parted.cons pivot)
            rw [List.append_assoc, List.append_assoc]
            refine (List.Perm.append_left _ (List.Perm.append_left _ List.perm_middle)).trans ?_
            exact (List.Perm.append_left _ List.perm_middle).trans List.perm_middle
          · cases h

/-- Sorting a long row keeps its elements. -/
theorem mergeSort?_perm {less : α → α → Bool} {xs ys : List α} (h : mergeSort? less xs = some ys) :
    ys.Perm xs := by
  unfold mergeSort? at h
  split at h
  · cases h
    exact stableSort_perm less xs
  · exact sortRuns?_perm (fun xs ys hys => sortByParts?_perm hys) h

end Parley.Query
