/-
  Parley.Proofs.Query.Order
  ────────────────────────────────
  **ROWS IN ORDER.**

  A comparison is a consistent order if nothing is less than what is less than
  it, and if what is not less than one thing is not less than anything before
  that either (`IsConsistent`).  Elements neither of which is less than the
  other may then be many, but they stand to all others alike.

  A row is in order if nothing in it is less than what stands before it.
  Insertion keeps that (`inOrder_insertFromRight`), so it sorts (`inOrder_stableSort`).

  An element to which nothing is less and that is less than nothing stays where
  it is, and nothing gets past it (`stableSort_append_cons`).  So what such
  elements keep apart is sorted by itself (`sortsStretches_stableSort`).
-/
import Parley.Query.Sort

namespace Parley.Query

/-! ## §1. Consistent orders. -/

/-- A comparison that puts things in order, some of them perhaps in one place. -/
structure IsConsistent (less : α → α → Bool) : Prop where
  asymm : ∀ a b, less a b = true → less b a = false
  trans : ∀ a b c, less a b = false → less b c = false → less a c = false

namespace IsConsistent

variable {less : α → α → Bool}

theorem irrefl (h : IsConsistent less) (a : α) : less a a = false := by
  cases haa : less a a with
  | false => rfl
  | true => rw [← haa, h.asymm a a haa]

/-- What is less than one thing is less than whatever that is not greater than. -/
theorem lt_of_lt_of_le (h : IsConsistent less) {a b c : α} (hab : less a b = true)
    (hbc : less c b = false) : less a c = true := by
  cases hac : less a c with
  | true => rfl
  | false => rw [← hab, h.trans a c b hac hbc]

theorem lt_of_le_of_lt (h : IsConsistent less) {a b c : α} (hab : less b a = false)
    (hbc : less b c = true) : less a c = true := by
  cases hac : less a c with
  | true => rfl
  | false => rw [← hbc, h.trans b a c hab hac]

/-- The order of a key. -/
theorem of_key (key : α → β) {before : β → β → Prop} [DecidableRel before]
    (hasymm : ∀ a b, before a b → ¬ before b a)
    (htrans : ∀ a b c, ¬ before a b → ¬ before b c → ¬ before a c) :
    IsConsistent fun a b => decide (before (key a) (key b)) where
  asymm _ _ hab := decide_eq_false (hasymm _ _ (of_decide_eq_true hab))
  trans _ _ _ hab hbc :=
    decide_eq_false (htrans _ _ _ (of_decide_eq_false hab) (of_decide_eq_false hbc))

/-- The order of an image. -/
theorem comap (h : IsConsistent less) (f : β → α) :
    IsConsistent fun a b => less (f a) (f b) where
  asymm a b := h.asymm (f a) (f b)
  trans a b c := h.trans (f a) (f b) (f c)

/-- A comparison with three outcomes, upwards. -/
theorem ascending (cmp : α → α → Ordering) [Std.TransCmp cmp] :
    IsConsistent fun a b => cmp a b == .lt where
  asymm a b hab := by
    rw [beq_iff_eq] at hab
    rw [beq_eq_false_iff_ne]
    exact Std.OrientedCmp.not_lt_of_lt hab
  trans a b c hab hbc := by
    simp only [beq_eq_false_iff_ne, ← Ordering.isGE_iff_ne_lt] at hab hbc ⊢
    exact Std.TransCmp.isGE_trans hab hbc

/-- A comparison with three outcomes, downwards. -/
theorem descending (cmp : α → α → Ordering) [Std.TransCmp cmp] :
    IsConsistent fun a b => cmp a b == .gt where
  asymm a b hab := by
    rw [beq_iff_eq] at hab
    rw [beq_eq_false_iff_ne]
    exact Std.OrientedCmp.not_gt_of_gt hab
  trans a b c hab hbc := by
    simp only [beq_eq_false_iff_ne, ← Ordering.isLE_iff_ne_gt] at hab hbc ⊢
    exact Std.TransCmp.isLE_trans hab hbc

end IsConsistent

/-! ## §2. Insertion. -/

/-- Nothing in a row is less than what stands before it. -/
def InOrder (less : α → α → Bool) (xs : List α) : Prop :=
  xs.Pairwise fun a b => less b a = false

section Insertion

variable {less : α → α → Bool}

/-- An element put into a row that is in order from right to left. -/
theorem inOrder_insertFromRight (h : IsConsistent less) (x : α) {row : List α}
    (hrow : row.Pairwise fun a b => less a b = false) :
    (insertFromRight less x row).Pairwise fun a b => less a b = false := by
  induction row with
  | nil => exact List.pairwise_singleton _ x
  | cons y rest ih =>
    obtain ⟨hy, hrest⟩ := List.pairwise_cons.mp hrow
    unfold insertFromRight
    split
    · rename_i hless
      refine List.pairwise_cons.mpr ⟨fun z hz => ?_, ih hrest⟩
      rcases List.mem_cons.mp ((insertFromRight_perm less x rest).subset hz) with rfl | hin
      · exact h.asymm z y hless
      · exact hy z hin
    · rename_i hless
      have hxy : less x y = false := Bool.eq_false_iff.mpr hless
      refine List.pairwise_cons.mpr ⟨fun z hz => ?_, hrow⟩
      rcases List.mem_cons.mp hz with rfl | hin
      · exact hxy
      · exact h.trans x y z hxy (hy z hin)

/-- A row in order with more elements inserted is in order. -/
theorem inOrder_insertAll (h : IsConsistent less) {row : List α} (hrow : InOrder less row)
    (xs : List α) : InOrder less (insertAll less row xs) := by
  refine List.pairwise_reverse.mpr ?_
  have hreverse : row.reverse.Pairwise fun a b => less a b = false :=
    List.pairwise_reverse.mpr hrow
  generalize row.reverse = back at hreverse
  -- Over the elements that are inserted.
  induction xs generalizing back with
  | nil => exact hreverse
  | cons x xs ih => exact ih _ (inOrder_insertFromRight h x hreverse)

/-- Sorting by a consistent order puts a row in order. -/
theorem inOrder_stableSort (h : IsConsistent less) (xs : List α) :
    InOrder less (stableSort less xs) :=
  inOrder_insertAll h List.Pairwise.nil xs

theorem insertFromRight_map (f : β → α) (x : β) (row : List β) :
    insertFromRight less (f x) (row.map f)
      = (insertFromRight (fun a b => less (f a) (f b)) x row).map f := by
  induction row with
  | nil => rfl
  | cons y rest ih =>
    simp only [List.map_cons, insertFromRight, ih]
    split
    · rfl
    · rfl

/-- Inserting into an image. -/
theorem insertAll_map (f : β → α) (sorted xs : List β) :
    insertAll less (sorted.map f) (xs.map f)
      = (insertAll (fun a b => less (f a) (f b)) sorted xs).map f := by
  have inserted (row : List β) :
      (xs.map f).foldl (fun row x => insertFromRight less x row) (row.map f)
        = (xs.foldl (fun row x => insertFromRight (fun a b => less (f a) (f b)) x row)
            row).map f := by
    induction xs generalizing row with
    | nil => rfl
    | cons x xs ih =>
      rw [List.map_cons, List.foldl_cons, List.foldl_cons, insertFromRight_map]
      exact ih _
  unfold insertAll
  rw [← List.map_reverse, inserted, List.map_reverse]

theorem stableSort_map (f : β → α) (xs : List β) :
    stableSort less (xs.map f) = (stableSort (fun a b => less (f a) (f b)) xs).map f :=
  insertAll_map f [] xs

end Insertion

/-! ## §3. Stretches. -/

section Stretches

variable {less : α → α → Bool}

/-- Nothing is less than an element, and it is less than nothing. -/
def IsNeutral (less : α → α → Bool) (n : α) : Prop :=
  ∀ a, less a n = false ∧ less n a = false

theorem insertFromRight_append_cons {n : α} (hn : IsNeutral less n) (x : α) (front back : List α) :
    insertFromRight less x (front ++ n :: back) = insertFromRight less x front ++ n :: back := by
  induction front with
  | nil =>
    show (if less x n then _ else _) = _
    rw [(hn x).1]
    rfl
  | cons y rest ih =>
    simp only [List.cons_append, insertFromRight, ih]
    split
    · rfl
    · rfl

theorem insertFromRight_neutral {n : α} (hn : IsNeutral less n) (row : List α) :
    insertFromRight less n row = n :: row := by
  cases row with
  | nil => rfl
  | cons y rest =>
    show (if less n y then _ else _) = _
    rw [(hn y).2]
    rfl

/-- A neutral element stays in its place, and nothing gets past it. -/
theorem stableSort_append_cons {n : α} (hn : IsNeutral less n) (xs ys : List α) :
    stableSort less (xs ++ n :: ys) = stableSort less xs ++ n :: stableSort less ys := by
  have inserted (front back : List α) :
      ys.foldl (fun row x => insertFromRight less x row) (front ++ n :: back)
        = ys.foldl (fun row x => insertFromRight less x row) front ++ n :: back := by
    induction ys generalizing front with
    | nil => rfl
    | cons y ys ih =>
      rw [List.foldl_cons, List.foldl_cons, insertFromRight_append_cons hn]
      exact ih _
  unfold stableSort insertAll
  rw [List.reverse_nil, List.foldl_append, List.foldl_cons, insertFromRight_neutral hn,
    ← List.nil_append (n :: _), inserted, List.reverse_append, List.reverse_cons,
    List.append_assoc, List.singleton_append]

/-- The elements that do not have a property stand in a row where they stood in another one; between
them are the same elements in order. -/
inductive SortsStretches (keep : α → Bool) (less : α → α → Bool) : List α → List α → Prop
  | last {xs row : List α} (hkeep : ∀ x ∈ xs, keep x = true) (hperm : row.Perm xs)
      (hrow : InOrder less row) : SortsStretches keep less xs row
  | next {xs row ys rest : List α} {n : α} (hkeep : ∀ x ∈ xs, keep x = true) (hperm : row.Perm xs)
      (hrow : InOrder less row) (hn : keep n = false) (hrest : SortsStretches keep less ys rest) :
      SortsStretches keep less (xs ++ n :: ys) (row ++ n :: rest)

section Kept

variable {keep : α → Bool} (hkeep : IsConsistent fun a b : { x // keep x = true } => less a b)
include hkeep

/-- It is enough that the order is consistent on the elements that are sorted. -/
theorem inOrder_stableSort_of_forall {xs : List α} (hxs : ∀ x ∈ xs, keep x = true) :
    InOrder less (stableSort less xs) := by
  have himage : xs = (xs.attachWith _ hxs).map Subtype.val := by simp
  rw [himage, stableSort_map]
  exact List.pairwise_map.mpr (inOrder_stableSort hkeep _)

/-- Sorting by an order that is consistent apart from neutral elements sorts the stretches between
these. -/
theorem sortsStretches_stableSort (hneutral : ∀ n, keep n = false → IsNeutral less n)
    (xs : List α) : SortsStretches keep less xs (stableSort less xs) := by
  suffices h : ∀ stretch : List α, (∀ x ∈ stretch, keep x = true) →
      SortsStretches keep less (stretch ++ xs) (stableSort less (stretch ++ xs)) from
    h [] (by simp)
  -- Over the row: the next element makes the stretch longer or ends it.
  induction xs with
  | nil =>
    intro stretch hstretch
    rw [List.append_nil]
    exact .last hstretch (stableSort_perm _ _) (inOrder_stableSort_of_forall hkeep hstretch)
  | cons x xs ih =>
    intro stretch hstretch
    cases hx : keep x with
    | true =>
      rw [List.append_cons]
      refine ih (stretch ++ [x]) fun y hy => ?_
      rcases List.mem_append.mp hy with hin | hlast
      · exact hstretch y hin
      · rw [List.mem_singleton.mp hlast]
        exact hx
    | false =>
      rw [stableSort_append_cons (hneutral x hx)]
      exact .next hstretch (stableSort_perm _ _) (inOrder_stableSort_of_forall hkeep hstretch) hx
        (ih [] (by simp))

end Kept

end Stretches

end Parley.Query
