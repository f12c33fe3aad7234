/-
  Parley.Proofs.Query.Sort.Merge
  ────────────────────────────────
  **A MERGE SORTS.**

  Two rows in order, merged from the front or from the back, are what sorting
  one behind the other makes of them (`merge_eq`).

  In a merge from both ends the two ends meet.  Every element is marked with the
  row that it comes from, and the marks of the sorted row are the sides from
  which it is merged.  A merge from the front takes the first of them
  (`frontSides_eq`), one from the back the last (`backSides_eq`), and what is
  counted in the middle makes up for what is missing (`endSides_eq`).
-/
import Parley.Proofs.Query.Sort.Image
import Parley.Proofs.Query.Sort.Levels

namespace Parley.Query

variable {less : α → α → Bool}

/-! ## §1. From the front. -/

/-- Two rows as one, of equal elements those of the first row first. -/
def merged (less : α → α → Bool) (xs ys : List α) : List α :=
  xs.merge ys fun x y => !less y x

@[simp] theorem merged_nil_left (less : α → α → Bool) (ys : List α) : merged less [] ys = ys := by
  simp [merged]

@[simp] theorem merged_nil_right (less : α → α → Bool) (xs : List α) : merged less xs [] = xs := by
  simp [merged]

theorem merged_cons_cons (less : α → α → Bool) (x y : α) (xs ys : List α) :
    merged less (x :: xs) (y :: ys)
      = if less y x then y :: merged less (x :: xs) ys else x :: merged less xs (y :: ys) := by
  unfold merged
  rw [List.cons_merge_cons]
  cases less y x <;> rfl

theorem inOrder_merged (h : IsConsistent less) {xs ys : List α} (hxs : InOrder less xs)
    (hys : InOrder less ys) : InOrder less (merged less xs ys) := by
  have htrans : ∀ a b c : α, (!less b a) = true → (!less c b) = true → (!less c a) = true := by
    intro a b c hab hbc
    rw [Bool.not_eq_true'] at hab hbc ⊢
    exact h.trans c b a hbc hab
  have htotal : ∀ a b : α, (!less b a || !less a b) = true := by
    intro a b
    cases hba : less b a with
    | false => rfl
    | true => simp [h.asymm b a hba]
  have hmerge := List.pairwise_merge htrans htotal xs ys
  simp only [Bool.not_eq_true'] at hmerge
  exact hmerge hxs hys

/-- Merging is stable. -/
theorem alike_merged (h : IsConsistent less) {xs ys : List α} (hxs : InOrder less xs) :
    Alike less (merged less xs ys) (xs ++ ys) := by
  intro a
  -- Over the first row, and for each of its elements over the second.
  induction xs generalizing ys with
  | nil => simp
  | cons x xs ih =>
    obtain ⟨hx, hxs'⟩ := List.pairwise_cons.mp hxs
    induction ys with
    | nil => simp
    | cons y ys ihys =>
      rw [merged_cons_cons]
      cases hyx : less y x with
      | false =>
        show (x :: merged less xs (y :: ys)).filter _ = (x :: (xs ++ y :: ys)).filter _
        rw [List.filter_cons, ih hxs', List.filter_cons]
      | true =>
        show (y :: merged less (x :: xs) ys).filter _ = _
        rw [List.filter_cons, ihys, List.filter_append, List.filter_append]
        by_cases hy : level less a y = true
        · -- The elements of the first row are all greater, so they are not on its level.
          have hnone : (x :: xs).filter (level less a) = [] := by
            rw [List.filter_eq_nil_iff]
            intro z hz hlevel
            have hyz := (level_iff.mp (level_trans h hy hlevel)).1
            rcases List.mem_cons.mp hz with rfl | hin
            · rw [hyx] at hyz
              cases hyz
            · rw [h.lt_of_lt_of_le hyx (hx z hin)] at hyz
              cases hyz
          rw [hnone]
          simp [hy]
        · simp [hy]

theorem merged_eq (h : IsConsistent less) {xs ys : List α} (hxs : InOrder less xs)
    (hys : InOrder less ys) : merged less xs ys = stableSort less (xs ++ ys) :=
  eq_stableSort h (inOrder_merged h hxs hys) (alike_merged h hxs)

/-- A merge from the front. -/
theorem interleave_frontSides (less : α → α → Bool) {n : Nat} {xs ys : List α}
    (hn : xs.length + ys.length ≤ n) :
    interleave (frontSides less n xs ys) xs ys = merged less xs ys := by
  -- Over the elements that are taken.
  induction n generalizing xs ys with
  | zero =>
    have hxs : xs = [] := List.length_eq_zero_iff.mp (by omega)
    have hys : ys = [] := List.length_eq_zero_iff.mp (by omega)
    subst hxs hys
    simp [frontSides, interleave]
  | succ n ih =>
    cases xs with
    | nil => simp [frontSides, interleave]
    | cons x xs =>
      cases ys with
      | nil => simp [frontSides, interleave]
      | cons y ys =>
        simp only [List.length_cons] at hn
        rw [merged_cons_cons, frontSides]
        split
        · rw [interleave, ih (by simp only [List.length_cons]; omega)]
        · rw [interleave, ih (by simp only [List.length_cons]; omega)]

/-- A merge from the back. -/
theorem interleave_backSides (less : α → α → Bool) {n : Nat} {xs ys : List α}
    (hn : xs.length + ys.length ≤ n) :
    interleave (backSides less n xs ys) xs ys = merged (fun a b => less b a) ys xs := by
  induction n generalizing xs ys with
  | zero =>
    have hxs : xs = [] := List.length_eq_zero_iff.mp (by omega)
    have hys : ys = [] := List.length_eq_zero_iff.mp (by omega)
    subst hxs hys
    simp [backSides, interleave]
  | succ n ih =>
    cases xs with
    | nil => simp [backSides, interleave]
    | cons x xs =>
      cases ys with
      | nil => simp [backSides, interleave]
      | cons y ys =>
        simp only [List.length_cons] at hn
        rw [merged_cons_cons, backSides]
        split
        · rw [interleave, ih (by simp only [List.length_cons]; omega)]
        · rw [interleave, ih (by simp only [List.length_cons]; omega)]

/-- What a merge from the back makes, from left to right. -/
theorem merged_flip_reverse (h : IsConsistent less) {xs ys : List α} (hxs : InOrder less xs)
    (hys : InOrder less ys) :
    merged (fun a b => less b a) ys.reverse xs.reverse = (stableSort less (xs ++ ys)).reverse := by
  rw [merged_eq h.flip hys.flip_reverse hxs.flip_reverse, ← List.reverse_append,
    stableSort_flip_reverse h]

/-- A merge of two rows in order is what sorting makes of them. -/
theorem merge_eq (h : IsConsistent less) {xs ys : List α} (hxs : InOrder less xs)
    (hys : InOrder less ys) : merge less xs ys = stableSort less (xs ++ ys) := by
  unfold merge
  dsimp only
  split
  · rw [interleave_frontSides less (Nat.le_refl _), merged_eq h hxs hys]
  · rw [interleave_backSides less (by simp), merged_flip_reverse h hxs hys, List.reverse_reverse]

/-! ## §2. Marks. -/

/-- The elements of a row, marked with its side. -/
def marked (side : Side) (xs : List α) : List (α × Side) :=
  xs.map fun x => (x, side)

@[simp] theorem map_fst_marked (side : Side) (xs : List α) : (marked side xs).map (·.1) = xs := by
  simp [marked, Function.comp_def]

@[simp] theorem length_marked (side : Side) (xs : List α) : (marked side xs).length = xs.length :=
  List.length_map _

theorem filter_marked (side other : Side) (xs : List α) :
    (marked side xs).filter (fun m => m.2 = other) = if side = other then marked side xs else [] := by
  unfold marked
  by_cases hside : side = other
  · rw [if_pos hside]
    exact List.filter_eq_self.mpr (by simp [hside])
  · rw [if_neg hside]
    exact List.filter_eq_nil_iff.mpr (by simp [hside])

theorem inOrder_marked {side : Side} {xs : List α} (hxs : InOrder less xs) :
    InOrder (fun a b : α × Side => less a.1 b.1) (marked side xs) :=
  List.pairwise_map.mpr hxs

/-- The sides from which two rows are merged: the marks of the sorted row. -/
def marks (less : α → α → Bool) (xs ys : List α) : List Side :=
  (stableSort (fun a b : α × Side => less a.1 b.1) (marked .left xs ++ marked .right ys)).map (·.2)

theorem length_marks (less : α → α → Bool) (xs ys : List α) :
    (marks less xs ys).length = xs.length + ys.length := by
  unfold marks
  rw [List.length_map, (stableSort_perm _ _).length_eq, List.length_append, length_marked,
    length_marked]

theorem count_marks (less : α → α → Bool) (xs ys : List α) :
    (marks less xs ys).count .left = xs.length := by
  unfold marks
  rw [((stableSort_perm _ _).map _).count_eq]
  simp [marked, Function.comp_def, List.map_const', List.count_replicate]

/-- The sides of a merge are the first marks of what it makes. -/
theorem exists_map_snd_interleave {sides : List Side} {xs ys : List α}
    (hleft : sides.count .left ≤ xs.length) (hright : sides.count .right ≤ ys.length) :
    ∃ rest, (interleave sides (marked .left xs) (marked .right ys)).map (·.2) = sides ++ rest := by
  induction sides generalizing xs ys with
  | nil => exact ⟨_, rfl⟩
  | cons side sides ih =>
    cases side with
    | left =>
      cases xs with
      | nil => simp at hleft
      | cons x xs =>
        simp only [List.count_cons_self, List.length_cons] at hleft
        obtain ⟨rest, hrest⟩ := @ih xs ys (by omega) (by simpa using hright)
        refine ⟨rest, ?_⟩
        simp only [marked, List.map_cons, interleave] at hrest ⊢
        rw [hrest, List.cons_append]
    | right =>
      cases ys with
      | nil => simp at hright
      | cons y ys =>
        simp only [List.count_cons_self, List.length_cons] at hright
        obtain ⟨rest, hrest⟩ := @ih xs ys (by simpa using hleft) (by omega)
        refine ⟨rest, ?_⟩
        simp only [marked, List.map_cons, interleave] at hrest ⊢
        rw [hrest, List.cons_append]

/-- A test that only one of two rows passes finds its elements as they are. -/
theorem filter_interleave {test : α → Bool} (sides : List Side) {xs ys : List α}
    (hone : (∀ x ∈ xs, test x = false) ∨ ∀ y ∈ ys, test y = false) :
    (interleave sides xs ys).filter test = xs.filter test ++ ys.filter test := by
  fun_induction interleave sides xs ys with
  | case1 sides x xs ys ih =>
    have hrest := ih (hone.imp_left fun h z hz => h z (List.mem_cons_of_mem x hz))
    rw [List.filter_cons, hrest, List.filter_cons]
    split
    · rfl
    · rfl
  | case2 sides xs y ys ih =>
    have hrest := ih (hone.imp_right fun h z hz => h z (List.mem_cons_of_mem y hz))
    rw [List.filter_cons, hrest, List.filter_cons]
    split
    · rename_i hy
      -- The second row passes, so the first one does not.
      have hnone : xs.filter test = [] := by
        rw [List.filter_eq_nil_iff]
        rcases hone with hxs | hys
        · intro x hx
          simp [hxs x hx]
        · rw [hys y List.mem_cons_self] at hy
          cases hy
      rw [hnone]
      rfl
    · rfl
  | case3 => exact List.filter_append ..

/-- Taking the elements from the sides that they are marked with gives them back. -/
theorem interleave_map_snd {row : List (α × Side)} {xs ys : List α}
    (hleft : row.filter (fun m => m.2 = .left) = marked .left xs)
    (hright : row.filter (fun m => m.2 = .right) = marked .right ys) :
    interleave (row.map (·.2)) xs ys = row.map (·.1) := by
  induction row generalizing xs ys with
  | nil =>
    obtain rfl : xs = [] := List.map_eq_nil_iff.mp hleft.symm
    obtain rfl : ys = [] := List.map_eq_nil_iff.mp hright.symm
    rfl
  | cons m row ih =>
    obtain ⟨a, side⟩ := m
    cases side with
    | left =>
      rw [List.filter_cons_of_pos (by simp)] at hleft
      rw [List.filter_cons_of_neg (by simp)] at hright
      cases xs with
      | nil => cases hleft
      | cons x xs =>
        obtain ⟨hhead, hrest⟩ := List.cons.inj hleft
        cases hhead
        rw [List.map_cons, interleave, ih hrest hright, List.map_cons]
    | right =>
      rw [List.filter_cons_of_neg (by simp)] at hleft
      rw [List.filter_cons_of_pos (by simp)] at hright
      cases ys with
      | nil => cases hright
      | cons y ys =>
        obtain ⟨hhead, hrest⟩ := List.cons.inj hright
        cases hhead
        rw [List.map_cons, interleave, ih hleft hrest, List.map_cons]

/-! ## §3. The sides. -/

section Sides

variable {xs ys : List α}

theorem take_frontSides (less : α → α → Bool) {k n : Nat} (hk : k ≤ n) (xs ys : List α) :
    (frontSides less n xs ys).take k = frontSides less k xs ys := by
  induction n generalizing k xs ys with
  | zero =>
    obtain rfl : k = 0 := by omega
    rfl
  | succ n ih =>
    cases k with
    | zero =>
      rw [List.take_zero]
      unfold frontSides
      rfl
    | succ k =>
      cases xs with
      | nil => rfl
      | cons x xs =>
        cases ys with
        | nil => rfl
        | cons y ys =>
          unfold frontSides
          split
          · rw [List.take_succ_cons, ih (by omega)]
          · rw [List.take_succ_cons, ih (by omega)]

/-- As long as no row is used up there is a side. -/
theorem length_frontSides (less : α → α → Bool) {n : Nat} (hxs : n ≤ xs.length)
    (hys : n ≤ ys.length) : (frontSides less n xs ys).length = n := by
  induction n generalizing xs ys with
  | zero =>
    unfold frontSides
    rfl
  | succ n ih =>
    cases xs with
    | nil => simp at hxs
    | cons x xs =>
      cases ys with
      | nil => simp at hys
      | cons y ys =>
        simp only [List.length_cons] at hxs hys
        unfold frontSides
        split
        · rw [List.length_cons, ih (by simp only [List.length_cons]; omega) (by omega)]
        · rw [List.length_cons, ih (by omega) (by simp only [List.length_cons]; omega)]

theorem count_frontSides (less : α → α → Bool) (n : Nat) (xs ys : List α) :
    (frontSides less n xs ys).count .left ≤ xs.length
      ∧ (frontSides less n xs ys).count .right ≤ ys.length := by
  fun_induction frontSides less n xs ys with
  | case1 n x xs y ys hless ih =>
    simp at ih ⊢
    omega
  | case2 n x xs y ys hless ih =>
    simp at ih ⊢
    omega
  | case3 => simp

/-- The other side. -/
def Side.other : Side → Side
  | .left => .right
  | .right => .left

/-- From the back the rows are merged as from the front with sides and order the other way round. -/
theorem backSides_eq_map (less : α → α → Bool) (n : Nat) (xs ys : List α) :
    backSides less n xs ys = (frontSides (fun a b => less b a) n ys xs).map Side.other := by
  induction n generalizing xs ys with
  | zero => rfl
  | succ n ih =>
    cases xs with
    | nil => cases ys <;> rfl
    | cons x xs =>
      cases ys with
      | nil => rfl
      | cons y ys =>
        unfold backSides frontSides
        split
        · rw [ih]
          rfl
        · rw [ih]
          rfl

theorem take_backSides (less : α → α → Bool) {k n : Nat} (hk : k ≤ n) (xs ys : List α) :
    (backSides less n xs ys).take k = backSides less k xs ys := by
  rw [backSides_eq_map, backSides_eq_map, ← List.map_take, take_frontSides _ hk]

theorem length_backSides (less : α → α → Bool) {n : Nat} (hxs : n ≤ xs.length)
    (hys : n ≤ ys.length) : (backSides less n xs ys).length = n := by
  rw [backSides_eq_map, List.length_map, length_frontSides _ hys hxs]

theorem count_backSides (less : α → α → Bool) (n : Nat) (xs ys : List α) :
    (backSides less n xs ys).count .left ≤ xs.length
      ∧ (backSides less n xs ys).count .right ≤ ys.length := by
  fun_induction backSides less n xs ys with
  | case1 n x xs y ys hless ih =>
    simp at ih ⊢
    omega
  | case2 n x xs y ys hless ih =>
    simp at ih ⊢
    omega
  | case3 => simp

variable (h : IsConsistent less) (hxs : InOrder less xs) (hys : InOrder less ys)
include h hxs hys

/-- A merge of the marked rows from the front. -/
theorem interleave_frontSides_marked :
    interleave (frontSides less (xs.length + ys.length) xs ys) (marked .left xs) (marked .right ys)
      = stableSort (fun a b : α × Side => less a.1 b.1) (marked .left xs ++ marked .right ys) := by
  have hsides := frontSides_map less Prod.fst (xs.length + ys.length)
    (marked .left xs) (marked .right ys)
  rw [map_fst_marked, map_fst_marked] at hsides
  rw [hsides, interleave_frontSides _ (by simp)]
  exact merged_eq (h.comap Prod.fst) (inOrder_marked hxs) (inOrder_marked hys)

/-- A merge of the marked rows from the back. -/
theorem interleave_backSides_marked :
    interleave (backSides less (xs.length + ys.length) xs.reverse ys.reverse)
        (marked .left xs.reverse) (marked .right ys.reverse)
      = (stableSort (fun a b : α × Side => less a.1 b.1)
          (marked .left xs ++ marked .right ys)).reverse := by
  have hsides := backSides_map less Prod.fst (xs.length + ys.length)
    (marked .left xs.reverse) (marked .right ys.reverse)
  rw [map_fst_marked, map_fst_marked] at hsides
  rw [hsides, interleave_backSides _ (by simp)]
  unfold marked
  rw [List.map_reverse, List.map_reverse]
  exact merged_flip_reverse (h.comap Prod.fst) (inOrder_marked hxs) (inOrder_marked hys)

/-- A merge from the front takes the first marks. -/
theorem frontSides_eq {k : Nat} (hkx : k ≤ xs.length) (hky : k ≤ ys.length) :
    frontSides less k xs ys = (marks less xs ys).take k := by
  have hcount := count_frontSides less (xs.length + ys.length) xs ys
  obtain ⟨rest, hrest⟩ := exists_map_snd_interleave hcount.1 hcount.2
  rw [interleave_frontSides_marked h hxs hys] at hrest
  have htake := take_frontSides less (Nat.le_add_right_of_le (k := ys.length) hkx) xs ys
  have hlength := length_frontSides less hkx hky
  rw [← htake, List.length_take] at hlength
  unfold marks
  rw [hrest, List.take_append_of_le_length (by omega), htake]

/-- A merge from the back takes the last marks. -/
theorem backSides_eq {k : Nat} (hkx : k ≤ xs.length) (hky : k ≤ ys.length) :
    backSides less k xs.reverse ys.reverse = (marks less xs ys).reverse.take k := by
  have hcount := count_backSides less (xs.length + ys.length) xs.reverse ys.reverse
  obtain ⟨rest, hrest⟩ := exists_map_snd_interleave hcount.1 hcount.2
  rw [interleave_backSides_marked h hxs hys] at hrest
  have htake := take_backSides less (Nat.le_add_right_of_le (k := ys.length) hkx) xs.reverse
    ys.reverse
  have hkx' : k ≤ xs.reverse.length := by
    rw [List.length_reverse]
    exact hkx
  have hky' : k ≤ ys.reverse.length := by
    rw [List.length_reverse]
    exact hky
  have hlength := length_backSides less hkx' hky'
  rw [← htake, List.length_take] at hlength
  unfold marks
  rw [← List.map_reverse, hrest, List.take_append_of_le_length (by omega), htake]

/-- The two ends meet. -/
theorem endSides_eq (hle : xs.length ≤ ys.length) (hone : ys.length ≤ xs.length + 1) :
    endSides less xs ys = marks less xs ys := by
  have hlength := length_marks less xs ys
  have hcount := count_marks less xs ys
  unfold endSides
  simp only
  rw [frontSides_eq h hxs hys (Nat.le_refl _) hle, backSides_eq h hxs hys (Nat.le_refl _) hle,
    List.take_reverse, List.reverse_reverse, hlength]
  generalize marks less xs ys = sides at hlength hcount ⊢
  split
  · rename_i hlonger
    have hrest : sides.drop xs.length = sides[xs.length] :: sides.drop (xs.length + 1) :=
      List.drop_eq_getElem_cons (by omega)
    have hback : xs.length + ys.length - xs.length = xs.length + 1 := by omega
    rw [hback]
    -- The left sides are as many as the left row has elements, the one in the middle among them.
    have hsum : (sides.take xs.length).count .left
        + (sides[xs.length] :: sides.drop (xs.length + 1)).count .left = xs.length := by
      rw [← List.count_append, ← hrest, List.take_append_drop, hcount]
    have hmiddle : (if (sides.take xs.length).count .left
        + (sides.drop (xs.length + 1)).count .left < xs.length then Side.left else .right)
          = sides[xs.length] := by
      cases hside : sides[xs.length] with
      | left =>
        rw [hside, List.count_cons_self] at hsum
        rw [if_pos (by omega)]
      | right =>
        rw [hside, List.count_cons_of_ne (by simp)] at hsum
        rw [if_neg (by omega)]
    rw [hmiddle, ← hrest, List.take_append_drop]
  · have hback : xs.length + ys.length - xs.length = xs.length := by omega
    rw [hback, List.take_append_drop]

/-- Taking the elements from the sides that are marked sorts them. -/
theorem interleave_marks :
    interleave (marks less xs ys) xs ys = stableSort less (xs ++ ys) := by
  have hsorted := interleave_frontSides_marked h hxs hys
  unfold marks
  rw [← hsorted]
  have hleft : (interleave (frontSides less (xs.length + ys.length) xs ys) (marked .left xs)
      (marked .right ys)).filter (fun m => m.2 = .left) = marked .left xs := by
    rw [filter_interleave _ (.inr (by simp [marked])), filter_marked, filter_marked]
    simp
  have hright : (interleave (frontSides less (xs.length + ys.length) xs ys) (marked .left xs)
      (marked .right ys)).filter (fun m => m.2 = .right) = marked .right ys := by
    rw [filter_interleave _ (.inl (by simp [marked])), filter_marked, filter_marked]
    simp
  rw [interleave_map_snd hleft hright, hsorted]
  have himage : stableSort less ((marked .left xs ++ marked .right ys).map Prod.fst) = _ :=
    stableSort_map Prod.fst _
  rw [List.map_append, map_fst_marked, map_fst_marked] at himage
  exact himage.symm

/-- A merge from both ends sorts two rows in order that are about equally long. -/
theorem mergeBothEnds?_eq (hle : xs.length ≤ ys.length) (hone : ys.length ≤ xs.length + 1) :
    mergeBothEnds? less xs ys = some (stableSort less (xs ++ ys)) := by
  unfold mergeBothEnds?
  rw [endSides_eq h hxs hys hle hone, if_pos (count_marks less xs ys), interleave_marks h hxs hys]

end Sides

end Parley.Query
