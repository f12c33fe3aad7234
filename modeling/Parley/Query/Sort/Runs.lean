/-
  Parley.Query.Sort.Runs
  ────────────────────────────────
  **MERGING RUNS.**

  A row is cut into runs: a long stretch that is in order already is one,
  anything else is cut to a length.  Runs are merged as nearly balanced as their
  lengths allow: the place between two runs has a depth in a tree over the whole
  row (`nodeDepth`), and deeper places are merged first.  Runs that are not
  sorted yet are only put together, until they meet a sorted one.
-/
import Parley.Query.Sort.Short

namespace Parley.Query

/-! ## §1. Cutting. -/

/-- A part of a row, and whether it is in order. -/
structure SortRun (α : Type) where
  elements : List α
  inOrder : Bool

/-- How many elements go on in the same direction after one, up or strictly down. -/
def goingOn (less : α → α → Bool) (down : Bool) : α → List α → Nat
  | _, [] => 0
  | x, y :: rest => if less y x = down then goingOn less down y rest + 1 else 0

/-- The length of the stretch in one direction at the front of a row, and whether it goes down. -/
def stretch (less : α → α → Bool) : List α → Nat × Bool
  | [] => (0, false)
  | [_] => (1, false)
  | x :: y :: rest => (goingOn less (less y x) y rest + 2, less y x)

/-- The run at the front of a row.  A stretch of a length is taken as it is; otherwise a run of that
length is left as it stands or, if runs are to be sorted at once, a short one is sorted. -/
def nextRun? (less : α → α → Bool) (atOnce : Bool) (long : Nat) (xs : List α) :
    Option (SortRun α × List α) :=
  let (n, down) := stretch less xs
  if long ≤ n then some (⟨if down then (xs.take n).reverse else xs.take n, true⟩, xs.drop n)
  else if atOnce then
    match sortShort? less (xs.take shortLength) with
    | none => none
    | some run => some (⟨run, true⟩, xs.drop shortLength)
  else some (⟨xs.take long, false⟩, xs.drop long)

/-- A number near the square root. -/
def nearRoot (n : Nat) : Nat :=
  let power := Nat.pow 2 ((n.log2 + 1) / 2)
  (power + n / power) / 2

/-- The length from which a stretch of a row with so many elements is a run. -/
def longRun (count : Nat) : Nat :=
  if count ≤ 4096 then min (count - count / 2) 64 else nearRoot count

/-! ## §2. Merging. -/

/-- The depth of the place between two runs, given the positions where they begin and end in a row:
the number of leading binary digits, of sixty-four, that the middles of the two runs have in common
as fractions of the row. -/
def nodeDepth (count first mid last : Nat) : Nat :=
  let scale := (Nat.pow 2 62 + count - 1) / count
  let apart := Nat.xor (scale * (first + mid)) (scale * (mid + last))
  if apart = 0 then 64 else 63 - apart.log2

/-- The elements of a run in order: by a method, unless they are in order already. -/
def SortRun.sorted? (sort : List α → Option (List α)) (r : SortRun α) : Option (List α) :=
  if r.inOrder then some r.elements else sort r.elements

/-- Two neighbouring runs as one. -/
def SortRun.join? (less : α → α → Bool) (sort : List α → Option (List α)) (a b : SortRun α) :
    Option (SortRun α) :=
  if a.inOrder || b.inOrder then
    match a.sorted? sort, b.sorted? sort with
    | some xs, some ys => some ⟨merge less xs ys, true⟩
    | _, _ => none
  else some ⟨a.elements ++ b.elements, false⟩

/-- Join a run with those before it whose places are at least so deep. -/
def joinDeeper? (join : SortRun α → SortRun α → Option (SortRun α)) (depth : Nat) :
    List (SortRun α × Nat) → SortRun α → Option (SortRun α × List (SortRun α × Nat))
  | [], run => some (run, [])
  | (before, d) :: stack, run =>
    if depth ≤ d then
      match join before run with
      | none => none
      | some joined => joinDeeper? join depth stack joined
    else some (run, (before, d) :: stack)

/-- Cut the rest of a row into runs and join them all.  The stack holds the runs before the last
one, each with the depth of the place after it; the steps are bounded by the number of elements. -/
def joinAll? (less : α → α → Bool) (sort : List α → Option (List α)) (atOnce : Bool) (count : Nat) :
    Nat → List (SortRun α × Nat) → SortRun α → Nat → List α → Option (SortRun α)
  | steps + 1, stack, last, position, x :: rest =>
    match nextRun? less atOnce (longRun count) (x :: rest) with
    | none => none
    | some (next, rest) =>
      let depth := nodeDepth count (position - last.elements.length) position
        (position + next.elements.length)
      match joinDeeper? (SortRun.join? less sort) depth stack last with
      | none => none
      | some (run, stack) =>
        joinAll? less sort atOnce count steps ((run, depth) :: stack) next
          (position + next.elements.length) rest
  | _, stack, last, _, rest =>
    match joinDeeper? (SortRun.join? less sort) 0 stack last with
    | none => none
    | some (run, _) => some ⟨run.elements ++ rest, run.inOrder && rest.isEmpty⟩

/-- A row sorted by merging runs, in which runs that are not in order are sorted by a method. -/
def sortRuns? (less : α → α → Bool) (sort : List α → Option (List α)) (atOnce : Bool)
    (xs : List α) : Option (List α) :=
  match nextRun? less atOnce (longRun xs.length) xs with
  | none => none
  | some (first, rest) =>
    match joinAll? less sort atOnce xs.length rest.length [] first first.elements.length rest with
    | none => none
    | some run => run.sorted? sort

/-! ## §3. The same elements. -/

section Elements

variable {less : α → α → Bool} {sort : List α → Option (List α)}

/-- Cutting a run off leaves the elements of the run and the rest. -/
theorem nextRun?_perm {atOnce : Bool} {long : Nat} {xs rest : List α} {run : SortRun α}
    (h : nextRun? less atOnce long xs = some (run, rest)) : (run.elements ++ rest).Perm xs := by
  have cut (n : Nat) {ys : List α} (hys : ys.Perm (xs.take n)) : (ys ++ xs.drop n).Perm xs := by
    refine (hys.append_right _).trans ?_
    rw [List.take_append_drop]
  unfold nextRun? at h
  dsimp only at h
  split at h
  · cases h
    dsimp only
    split
    · exact cut _ (List.reverse_perm _)
    · exact cut _ (List.Perm.refl _)
  · split at h
    · split at h
      · cases h
      · rename_i hshort
        cases h
        exact cut _ (sortShort?_perm hshort)
    · cases h
      exact cut _ (List.Perm.refl _)

theorem SortRun.sorted?_perm (hsort : ∀ xs ys, sort xs = some ys → ys.Perm xs) {r : SortRun α}
    {ys : List α} (h : r.sorted? sort = some ys) : ys.Perm r.elements := by
  unfold SortRun.sorted? at h
  split at h
  · cases h
    exact List.Perm.refl _
  · exact hsort _ _ h

theorem SortRun.join?_perm (hsort : ∀ xs ys, sort xs = some ys → ys.Perm xs) {a b run : SortRun α}
    (h : SortRun.join? less sort a b = some run) :
    run.elements.Perm (a.elements ++ b.elements) := by
  unfold SortRun.join? at h
  split at h
  · split at h
    · rename_i hxs hys
      cases h
      exact (merge_perm _ _ _).trans ((sorted?_perm hsort hxs).append (sorted?_perm hsort hys))
    · cases h
  · cases h
    exact List.Perm.refl _

/-- The elements of the runs on a stack, in the order of the row. -/
def stacked : List (SortRun α × Nat) → List α
  | [] => []
  | (run, _) :: stack => stacked stack ++ run.elements

theorem joinDeeper?_perm {join : SortRun α → SortRun α → Option (SortRun α)}
    (hjoin : ∀ a b run, join a b = some run → run.elements.Perm (a.elements ++ b.elements))
    {depth : Nat} {stack rest : List (SortRun α × Nat)} {last run : SortRun α}
    (h : joinDeeper? join depth stack last = some (run, rest)) :
    (stacked rest ++ run.elements).Perm (stacked stack ++ last.elements) := by
  induction stack generalizing last with
  | nil =>
    cases h
    exact List.Perm.refl _
  | cons top stack ih =>
    obtain ⟨before, d⟩ := top
    unfold joinDeeper? at h
    split at h
    · split at h
      · cases h
      · rename_i hjoined
        refine (ih h).trans ?_
        refine ((hjoin _ _ _ hjoined).append_left _).trans ?_
        rw [stacked, List.append_assoc]
    · cases h
      exact List.Perm.refl _

/-- Joining at depth zero leaves no run on the stack. -/
theorem joinDeeper?_zero {join : SortRun α → SortRun α → Option (SortRun α)}
    {stack rest : List (SortRun α × Nat)} {last run : SortRun α}
    (h : joinDeeper? join 0 stack last = some (run, rest)) : rest = [] := by
  induction stack generalizing last with
  | nil =>
    cases h
    rfl
  | cons top stack ih =>
    obtain ⟨before, d⟩ := top
    unfold joinDeeper? at h
    rw [if_pos (Nat.zero_le d)] at h
    split at h
    · cases h
    · exact ih h

theorem joinAll?_perm (hsort : ∀ xs ys, sort xs = some ys → ys.Perm xs) {atOnce : Bool}
    {count steps : Nat} {stack : List (SortRun α × Nat)} {last run : SortRun α} {position : Nat}
    {rest : List α} (h : joinAll? less sort atOnce count steps stack last position rest = some run) :
    run.elements.Perm (stacked stack ++ last.elements ++ rest) := by
  -- Over the steps; the runs on the stack and the last one make up the row so far.
  fun_induction joinAll? less sort atOnce count steps stack last position rest with
  | case1 => cases h
  | case2 => cases h
  | case3 steps stack last position x rest next rest' hnext depth run' stack' hdeeper ih =>
    refine (ih h).trans ?_
    rw [stacked, List.append_assoc]
    refine (List.Perm.append_left _ (nextRun?_perm hnext)).trans ?_
    exact (joinDeeper?_perm (fun _ _ _ => SortRun.join?_perm hsort) hdeeper).append_right _
  | case4 => cases h
  | case5 _ stack last _ rest run' stack' hdeeper =>
    cases h
    have hperm := joinDeeper?_perm (fun _ _ _ => SortRun.join?_perm hsort) hdeeper
    rw [joinDeeper?_zero hdeeper] at hperm
    exact hperm.append_right rest

/-- Merging runs keeps the elements, if the method for what is not in order does. -/
theorem sortRuns?_perm (hsort : ∀ xs ys, sort xs = some ys → ys.Perm xs) {atOnce : Bool}
    {xs ys : List α} (h : sortRuns? less sort atOnce xs = some ys) : ys.Perm xs := by
  unfold sortRuns? at h
  split at h
  · cases h
  · rename_i first rest hfirst
    split at h
    · cases h
    · rename_i run hrun
      refine (SortRun.sorted?_perm hsort h).trans ?_
      refine (joinAll?_perm hsort hrun).trans ?_
      exact nextRun?_perm hfirst

end Elements

end Parley.Query
