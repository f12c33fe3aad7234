/-
  Parley.Proofs.Query.Sort.Levels
  ────────────────────────────────
  **WHAT A STABLE SORT MAKES.**

  A consistent order puts elements on levels: on one level are those of which
  neither is less than the other.  A sort is stable if on every level the
  elements follow one another as they did before (`Alike`).

  There is only one row in order with the levels of a given one (`eq_of_alike`).
  So whatever a method does, if its result is in order and its levels are those
  of what was sorted, it is what insertion makes of it (`eq_stableSort`).
-/
import Parley.Proofs.Query.Order

namespace Parley.Query

/-! ## §1. Levels. -/

/-- Whether neither of two elements is less than the other. -/
def level (less : α → α → Bool) (a b : α) : Bool :=
  !less a b && !less b a

/-- Two rows have the same elements on each level, in the same order. -/
def Alike (less : α → α → Bool) (xs ys : List α) : Prop :=
  ∀ a, xs.filter (level less a) = ys.filter (level less a)

variable {less : α → α → Bool}

theorem level_iff {a b : α} : level less a b = true ↔ less a b = false ∧ less b a = false := by
  unfold level
  simp

theorem level_flip (less : α → α → Bool) : level (fun a b => less b a) = level less := by
  funext a b
  unfold level
  rw [Bool.and_comm]

namespace Alike

variable {xs ys zs us vs : List α}

theorem refl (less : α → α → Bool) (xs : List α) : Alike less xs xs := fun _ => rfl

theorem symm (h : Alike less xs ys) : Alike less ys xs := fun a => (h a).symm

theorem trans (hxy : Alike less xs ys) (hyz : Alike less ys zs) : Alike less xs zs :=
  fun a => (hxy a).trans (hyz a)

theorem append (hxy : Alike less xs ys) (huv : Alike less us vs) :
    Alike less (xs ++ us) (ys ++ vs) := by
  intro a
  rw [List.filter_append, List.filter_append, hxy a, huv a]

theorem cons (x : α) (hxy : Alike less xs ys) : Alike less (x :: xs) (x :: ys) :=
  (refl less [x]).append hxy

theorem reverse (h : Alike less xs ys) : Alike less xs.reverse ys.reverse := by
  intro a
  rw [List.filter_reverse, List.filter_reverse, h a]

theorem flip (h : Alike less xs ys) : Alike (fun a b => less b a) xs ys := by
  intro a
  rw [level_flip less]
  exact h a

/-- What is on one side is on the other. -/
theorem mem (hless : IsConsistent less) (h : Alike less xs ys) {a : α} (ha : a ∈ xs) : a ∈ ys := by
  have hself : level less a a = true := level_iff.mpr ⟨hless.irrefl a, hless.irrefl a⟩
  have hin : a ∈ xs.filter (level less a) := List.mem_filter.mpr ⟨ha, hself⟩
  rw [h a] at hin
  exact (List.mem_filter.mp hin).1

end Alike

/-- Two elements on a level with a third are on a level with each other. -/
theorem level_trans (h : IsConsistent less) {a b c : α} (hab : level less a b = true)
    (hac : level less a c = true) : level less b c = true := by
  rw [level_iff] at hab hac ⊢
  constructor
  · exact h.trans b a c hab.2 hac.1
  · exact h.trans c a b hac.2 hab.1

/-! ## §2. One row. -/

/-- Rows in order that are alike are the same. -/
theorem eq_of_alike (h : IsConsistent less) {xs ys : List α} (hxs : InOrder less xs)
    (hys : InOrder less ys) (hxy : Alike less xs ys) : xs = ys := by
  -- Over the first row.  The heads are on a level, for neither is less than what is in the rows.
  induction xs generalizing ys with
  | nil =>
    cases ys with
    | nil => rfl
    | cons y ys => exact absurd (hxy.symm.mem h List.mem_cons_self) List.not_mem_nil
  | cons x xs ih =>
    cases ys with
    | nil => exact absurd (hxy.mem h List.mem_cons_self) List.not_mem_nil
    | cons y ys =>
      obtain ⟨hx, hxs'⟩ := List.pairwise_cons.mp hxs
      obtain ⟨hy, hys'⟩ := List.pairwise_cons.mp hys
      have hxy' : less x y = false := by
        rcases List.mem_cons.mp (hxy.mem h List.mem_cons_self) with heq | hin
        · rw [heq]
          exact h.irrefl y
        · exact hy x hin
      have hyx : less y x = false := by
        rcases List.mem_cons.mp (hxy.symm.mem h List.mem_cons_self) with heq | hin
        · rw [heq]
          exact h.irrefl x
        · exact hx y hin
      have hheads := hxy x
      rw [List.filter_cons_of_pos (level_iff.mpr ⟨h.irrefl x, h.irrefl x⟩),
        List.filter_cons_of_pos (level_iff.mpr ⟨hxy', hyx⟩)] at hheads
      obtain ⟨rfl, _⟩ := List.cons.inj hheads
      congr 1
      refine ih hxs' hys' fun a => ?_
      have htails := hxy a
      rw [List.filter_cons, List.filter_cons] at htails
      split at htails
      · exact (List.cons.inj htails).2
      · exact htails

/-- Inserting an element changes no level but its own, where it comes last. -/
theorem filter_insertFromRight (h : IsConsistent less) (a x : α) (row : List α) :
    (insertFromRight less x row).filter (level less a) = (x :: row).filter (level less a) := by
  induction row with
  | nil => rfl
  | cons y rest ih =>
    unfold insertFromRight
    split
    · rename_i hless
      rw [List.filter_cons, ih, List.filter_cons, List.filter_cons, List.filter_cons]
      -- What is passed is not on the level of what is inserted.
      by_cases hx : level less a x = true
      · have hy : ¬ level less a y = true := by
          intro hy
          have hxy := (level_iff.mp (level_trans h hx hy)).1
          rw [hless] at hxy
          cases hxy
        simp [hx, hy]
      · simp [hx]
    · rfl

/-- Insertion is stable. -/
theorem alike_insertAll (h : IsConsistent less) (sorted xs : List α) :
    Alike less (insertAll less sorted xs) (sorted ++ xs) := by
  intro a
  have inserted (row : List α) :
      (xs.foldl (fun row x => insertFromRight less x row) row).filter (level less a)
        = (xs.reverse ++ row).filter (level less a) := by
    induction xs generalizing row with
    | nil => rfl
    | cons x xs ih =>
      rw [List.foldl_cons, ih, List.filter_append, filter_insertFromRight h, List.reverse_cons,
        List.append_assoc, List.filter_append]
      rfl
  unfold insertAll
  rw [List.filter_reverse, inserted, ← List.filter_reverse, List.reverse_append,
    List.reverse_reverse, List.reverse_reverse]

theorem alike_stableSort (h : IsConsistent less) (xs : List α) :
    Alike less (stableSort less xs) xs :=
  alike_insertAll h [] xs

/-- A row in order is what a row alike is sorted into. -/
theorem eq_stableSort (h : IsConsistent less) {xs row : List α} (hrow : InOrder less row)
    (halike : Alike less row xs) : row = stableSort less xs :=
  eq_of_alike h hrow (inOrder_stableSort h xs) (halike.trans (alike_stableSort h xs).symm)

theorem stableSort_congr (h : IsConsistent less) {xs ys : List α} (hxy : Alike less xs ys) :
    stableSort less xs = stableSort less ys :=
  eq_stableSort h (inOrder_stableSort h xs) ((alike_stableSort h xs).trans hxy)

theorem stableSort_of_inOrder (h : IsConsistent less) {xs : List α} (hxs : InOrder less xs) :
    stableSort less xs = xs :=
  (eq_stableSort h hxs (Alike.refl less xs)).symm

/-- Sorting parts first makes no difference. -/
theorem stableSort_append_stableSort (h : IsConsistent less) (xs ys : List α) :
    stableSort less (stableSort less xs ++ stableSort less ys) = stableSort less (xs ++ ys) :=
  stableSort_congr h ((alike_stableSort h xs).append (alike_stableSort h ys))

/-- A row sorted in part goes on as one that is sorted from the start. -/
theorem stableSort_append (less : α → α → Bool) (xs ys : List α) :
    stableSort less (xs ++ ys) = insertAll less (stableSort less xs) ys := by
  unfold stableSort insertAll
  rw [List.reverse_reverse, List.foldl_append]

/-! ## §3. From right to left. -/

theorem IsConsistent.flip (h : IsConsistent less) : IsConsistent fun a b => less b a where
  asymm a b hab := h.asymm b a hab
  trans a b c hab hbc := h.trans c b a hbc hab

theorem InOrder.flip_reverse {xs : List α} (hxs : InOrder less xs) :
    InOrder (fun a b => less b a) xs.reverse :=
  List.pairwise_reverse.mpr hxs

/-- Sorting the other way round. -/
theorem stableSort_flip_reverse (h : IsConsistent less) (xs : List α) :
    stableSort (fun a b => less b a) xs.reverse = (stableSort less xs).reverse :=
  (eq_stableSort h.flip (inOrder_stableSort h xs).flip_reverse
    (alike_stableSort h xs).reverse.flip).symm

end Parley.Query
