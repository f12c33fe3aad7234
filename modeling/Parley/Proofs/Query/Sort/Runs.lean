/-
  Parley.Proofs.Query.Sort.Runs
  ────────────────────────────────
  **RUNS ARE MERGED INTO A SORTED ROW.**

  A run that counts as in order is in order, and cutting runs off and joining
  them changes no level (`nextRun?_eq`, `join?_eq`, `joinAll?_eq`).  A run that is
  not in order waits for a method that sorts; if all runs are sorted at once no
  method is needed (`IsReady`).
-/
import Parley.Proofs.Query.Sort.Short

namespace Parley.Query

variable {less : α → α → Bool}

/-! ## §1. Stretches. -/

theorem length_stretch_pos (less : α → α → Bool) {xs : List α} (hxs : xs ≠ []) :
    0 < (stretch less xs).1 := by
  match xs with
  | [] => exact absurd rfl hxs
  | [_] => exact Nat.zero_lt_one
  | _ :: _ :: _ => exact Nat.succ_pos _

section Stretch

variable (h : IsConsistent less)
include h

/-- What goes on in one direction from neighbour to neighbour does so from any element to any later
one. -/
theorem pairwise_take_goingOn (down : Bool) (x : α) (xs : List α) :
    (x :: xs.take (goingOn less down x xs)).Pairwise fun a b => less b a = down := by
  induction xs generalizing x with
  | nil => simp
  | cons y rest ih =>
    unfold goingOn
    split
    · rename_i hyx
      obtain ⟨hy, _⟩ := List.pairwise_cons.mp (ih y)
      refine List.pairwise_cons.mpr ⟨fun z hz => ?_, ih y⟩
      rcases List.mem_cons.mp hz with rfl | hin
      · exact hyx
      · have hzy := hy z hin
        cases down with
        | true => exact h.lt_of_lt_of_le hzy (h.asymm y x hyx)
        | false => exact h.trans z y x hzy hyx
    · simp

theorem pairwise_take_stretch (xs : List α) :
    (xs.take (stretch less xs).1).Pairwise fun a b => less b a = (stretch less xs).2 := by
  match xs with
  | [] => exact List.Pairwise.nil
  | [x] => exact List.pairwise_singleton _ x
  | x :: y :: rest =>
    have hgoing := pairwise_take_goingOn h (less y x) x (y :: rest)
    rw [goingOn, if_pos rfl] at hgoing
    exact hgoing

/-- A row that goes strictly down may be turned around, for no two elements are on one level. -/
theorem alike_reverse {xs : List α} (hxs : xs.Pairwise fun a b => less b a = true) :
    Alike less xs.reverse xs := by
  intro a
  rw [List.filter_reverse]
  match hlevel : xs.filter (level less a) with
  | [] => rfl
  | [_] => rfl
  | x :: y :: rest =>
    have hpair := hxs.filter (level less a)
    have hin : ∀ z ∈ xs.filter (level less a), level less a z = true := fun z hz =>
      (List.mem_filter.mp hz).2
    rw [hlevel] at hpair hin
    have hyx := (List.pairwise_cons.mp hpair).1 y List.mem_cons_self
    have hsame := level_trans h (hin y (by simp)) (hin x (by simp))
    rw [(level_iff.mp hsame).1] at hyx
    cases hyx

end Stretch

/-! ## §2. Ready runs. -/

/-- A method sorts. -/
def Sorts (less : α → α → Bool) (sort : List α → Option (List α)) : Prop :=
  ∀ xs, sort xs = some (stableSort less xs)

/-- A run that counts as in order is so; one that does not waits for a method that sorts. -/
structure SortRun.IsReady (less : α → α → Bool) (sort : List α → Option (List α))
    (run : SortRun α) : Prop where
  inOrder : run.inOrder = true → InOrder less run.elements
  waits : run.inOrder = false → Sorts less sort

section Ready

variable (h : IsConsistent less) {sort : List α → Option (List α)}
include h

theorem SortRun.sorted?_eq {run : SortRun α} (hrun : run.IsReady less sort) :
    run.sorted? sort = some (stableSort less run.elements) := by
  unfold SortRun.sorted?
  split
  · rename_i hin
    rw [stableSort_of_inOrder h (hrun.inOrder hin)]
  · rename_i hnot
    exact hrun.waits (Bool.eq_false_iff.mpr hnot) run.elements

/-- A ready run can be cut off.  If runs are sorted at once, the rest gets shorter. -/
theorem nextRun?_eq {atOnce : Bool} (hsort : atOnce = false → Sorts less sort) (long : Nat)
    (xs : List α) :
    ∃ run rest, nextRun? less atOnce long xs = some (run, rest) ∧ run.IsReady less sort
      ∧ Alike less (run.elements ++ rest) xs
      ∧ (atOnce = true → xs ≠ [] → rest.length < xs.length) := by
  have cut (n : Nat) {ys : List α} (hys : Alike less ys (xs.take n)) :
      Alike less (ys ++ xs.drop n) xs := by
    have happend := hys.append (Alike.refl less (xs.drop n))
    rwa [List.take_append_drop] at happend
  have shorter {n : Nat} (hn : 0 < n) (hxs : xs ≠ []) : (xs.drop n).length < xs.length := by
    have hpos := List.length_pos_iff.mpr hxs
    rw [List.length_drop]
    omega
  have hstretch := pairwise_take_stretch h xs
  have hpos : xs ≠ [] → 0 < (stretch less xs).1 := length_stretch_pos less
  unfold nextRun?
  generalize stretch less xs = found at hstretch hpos
  obtain ⟨n, down⟩ := found
  simp only at hstretch hpos ⊢
  split
  · cases down with
    | true =>
      have hrow : InOrder less (xs.take n).reverse :=
        List.pairwise_reverse.mpr (hstretch.imp fun hless => h.asymm _ _ hless)
      exact ⟨_, _, rfl, ⟨fun _ => hrow, nofun⟩, cut n (alike_reverse h hstretch),
        fun _ hxs => shorter (hpos hxs) hxs⟩
    | false =>
      exact ⟨_, _, rfl, ⟨fun _ => hstretch, nofun⟩, cut n (Alike.refl less _),
        fun _ hxs => shorter (hpos hxs) hxs⟩
  · cases atOnce with
    | true =>
      simp only [if_true, sortShort?_eq h]
      exact ⟨_, _, rfl, ⟨fun _ => inOrder_stableSort h _, nofun⟩,
        cut _ (alike_stableSort h _), fun _ hxs => shorter (by decide) hxs⟩
    | false =>
      exact ⟨_, _, rfl, ⟨nofun, fun _ => hsort rfl⟩, cut long (Alike.refl less _), nofun⟩

/-- Two ready runs are joined into one. -/
theorem SortRun.join?_eq {a b : SortRun α} (ha : a.IsReady less sort) (hb : b.IsReady less sort) :
    ∃ run, SortRun.join? less sort a b = some run ∧ run.IsReady less sort
      ∧ Alike less run.elements (a.elements ++ b.elements) := by
  unfold SortRun.join?
  rw [sorted?_eq h ha, sorted?_eq h hb]
  split
  · simp only
    rw [merge_eq h (inOrder_stableSort h _) (inOrder_stableSort h _),
      stableSort_append_stableSort h]
    exact ⟨_, rfl, ⟨fun _ => inOrder_stableSort h _, nofun⟩, alike_stableSort h _⟩
  · rename_i hnot
    rw [Bool.or_eq_true, not_or, Bool.not_eq_true] at hnot
    exact ⟨_, rfl, ⟨nofun, fun _ => ha.waits hnot.1⟩, Alike.refl less _⟩

/-- The runs on a stack are ready. -/
def AreReady (less : α → α → Bool) (sort : List α → Option (List α))
    (stack : List (SortRun α × Nat)) : Prop :=
  ∀ top ∈ stack, top.1.IsReady less sort

theorem joinDeeper?_eq (depth : Nat) {stack : List (SortRun α × Nat)} {last : SortRun α}
    (hstack : AreReady less sort stack) (hlast : last.IsReady less sort) :
    ∃ run rest, joinDeeper? (SortRun.join? less sort) depth stack last = some (run, rest)
      ∧ run.IsReady less sort ∧ AreReady less sort rest
      ∧ Alike less (stacked rest ++ run.elements) (stacked stack ++ last.elements) := by
  induction stack generalizing last with
  | nil => exact ⟨last, [], rfl, hlast, hstack, Alike.refl less _⟩
  | cons top stack ih =>
    obtain ⟨before, d⟩ := top
    have hbefore : before.IsReady less sort := hstack _ List.mem_cons_self
    have hothers : AreReady less sort stack := fun top htop =>
      hstack top (List.mem_cons_of_mem _ htop)
    unfold joinDeeper?
    split
    · obtain ⟨joined, hjoined, hready, halike⟩ := SortRun.join?_eq h hbefore hlast
      obtain ⟨run, rest, hdeeper, hrun, hrest, hsame⟩ := ih hothers hready
      rw [hjoined]
      refine ⟨run, rest, hdeeper, hrun, hrest, hsame.trans ?_⟩
      rw [stacked, List.append_assoc]
      exact (Alike.refl less _).append halike
    · exact ⟨last, _, rfl, hlast, hstack, Alike.refl less _⟩

/-- At the end all runs are joined.  What is left over waits for a method. -/
theorem joinAll?_eq_of_end {atOnce : Bool} (hsort : atOnce = false → Sorts less sort)
    {count steps : Nat} {stack : List (SortRun α × Nat)} {last : SortRun α} {position : Nat}
    {rest : List α} (hstack : AreReady less sort stack) (hlast : last.IsReady less sort)
    (hend : steps = 0 ∨ rest = []) (hrest : atOnce = true → rest = []) :
    ∃ run, joinAll? less sort atOnce count steps stack last position rest = some run
      ∧ run.IsReady less sort
      ∧ Alike less run.elements (stacked stack ++ last.elements ++ rest) := by
  obtain ⟨run, left, hdeeper, hrun, _, halike⟩ := joinDeeper?_eq h 0 hstack hlast
  obtain rfl := joinDeeper?_zero hdeeper
  rw [joinAll?_of_end less stack last hend, hdeeper]
  refine ⟨⟨run.elements ++ rest, run.inOrder && rest.isEmpty⟩, rfl,
    ⟨fun hin => ?_, fun hnot => ?_⟩, halike.append (Alike.refl less rest)⟩
  · simp only [Bool.and_eq_true, List.isEmpty_iff] at hin
    obtain ⟨hin, rfl⟩ := hin
    show InOrder less (run.elements ++ [])
    rw [List.append_nil]
    exact hrun.inOrder hin
  · cases hwhen : atOnce with
    | false => exact hsort hwhen
    | true =>
      simp only [hrest hwhen, List.isEmpty_nil, Bool.and_true] at hnot
      exact hrun.waits hnot

/-- All runs are joined into one, if the steps are enough or there is a method that sorts. -/
theorem joinAll?_eq {atOnce : Bool} (hsort : atOnce = false → Sorts less sort) (count : Nat)
    {steps : Nat} {stack : List (SortRun α × Nat)} {last : SortRun α} (position : Nat)
    {rest : List α} (hstack : AreReady less sort stack) (hlast : last.IsReady less sort)
    (hsteps : atOnce = true → rest.length ≤ steps) :
    ∃ run, joinAll? less sort atOnce count steps stack last position rest = some run
      ∧ run.IsReady less sort
      ∧ Alike less run.elements (stacked stack ++ last.elements ++ rest) := by
  -- Over the steps; each cuts a run off the rest.
  induction steps generalizing stack last position rest with
  | zero =>
    refine joinAll?_eq_of_end h hsort hstack hlast (.inl rfl) fun hwhen => ?_
    exact List.length_eq_zero_iff.mp (Nat.le_zero.mp (hsteps hwhen))
  | succ steps ih =>
    cases rest with
    | nil => exact joinAll?_eq_of_end h hsort hstack hlast (.inr rfl) fun _ => rfl
    | cons x rest =>
      obtain ⟨next, rest', hnext, hready, hcut, hshorter⟩ :=
        nextRun?_eq h hsort (longRun count) (x :: rest)
      obtain ⟨run, stack', hdeeper, hrun, hstack', halike⟩ :=
        joinDeeper?_eq h (nodeDepth count (position - last.elements.length) position
          (position + next.elements.length)) hstack hlast
      have hpushed (depth : Nat) : AreReady less sort ((run, depth) :: stack') :=
        List.forall_mem_cons.mpr ⟨hrun, hstack'⟩
      have hfewer : atOnce = true → rest'.length ≤ steps := by
        intro hwhen
        have hless := hshorter hwhen (List.cons_ne_nil x rest)
        have henough := hsteps hwhen
        omega
      obtain ⟨all, hall, hallReady, hallAlike⟩ :=
        ih (position + next.elements.length) (hpushed _) hready hfewer
      unfold joinAll?
      rw [hnext]
      simp only
      rw [hdeeper]
      refine ⟨all, hall, hallReady, hallAlike.trans ?_⟩
      rw [stacked, List.append_assoc]
      exact halike.append hcut

/-- Merging runs sorts a row. -/
theorem sortRuns?_eq {atOnce : Bool} (hsort : atOnce = false → Sorts less sort) (xs : List α) :
    sortRuns? less sort atOnce xs = some (stableSort less xs) := by
  obtain ⟨first, rest, hfirst, hready, hcut, _⟩ := nextRun?_eq h hsort (longRun xs.length) xs
  have hnone : AreReady less sort [] := nofun
  obtain ⟨run, hrun, hrunReady, halike⟩ := joinAll?_eq h hsort xs.length first.elements.length
    hnone hready fun _ => Nat.le_refl rest.length
  unfold sortRuns?
  rw [hfirst]
  simp only
  rw [hrun]
  simp only
  rw [SortRun.sorted?_eq h hrunReady]
  exact congrArg some (stableSort_congr h (halike.trans hcut))

end Ready

end Parley.Query
