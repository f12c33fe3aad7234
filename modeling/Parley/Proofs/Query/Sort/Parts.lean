/-
  Parley.Proofs.Query.Sort.Parts
  ────────────────────────────────
  **THE SORT SORTS.**

  A row is parted by a test that does not tell elements of one level apart, so
  no level changes (`alike_parted`); and what stands in one part is not less than
  what stands in the one before it.  When a row comes with a bound, nothing in it
  is less than the bound (`IsBounded`), and that tells when all that is not
  greater than the pivot is on its level (`least_of_bound`).  By induction on how
  often a row may still be parted, parting sorts it (`sortByParts?_eq`).

  So the sort has a result for every row and every consistent order, and it is
  what insertion makes of the row (`mergeSort?_eq`).
-/
import Parley.Query.Sort.Partition
import Parley.Proofs.Query.Sort.Runs

namespace Parley.Query

/-! ## §1. The pivot. -/

theorem medianOfThree_lt (less : Nat → Nat → Bool) {a b c n : Nat} (ha : a < n) (hb : b < n)
    (hc : c < n) : medianOfThree less a b c < n := by
  unfold medianOfThree
  split
  · split
    · exact hb
    · exact hc
  · exact ha

/-- The middle one is among the positions that the three stand for. -/
theorem median_lt (less : Nat → Nat → Bool) {a b c count n : Nat} (hcount : 0 < count)
    (ha : a + count ≤ n) (hb : b + count ≤ n) (hc : c + count ≤ n) :
    median less a b c count < n := by
  fun_induction median less a b c count with
  | case1 a b c count hfew => exact medianOfThree_lt less (by omega) (by omega) (by omega)
  | case2 a b c count hmany eighth middle ih =>
    have hpos : 0 < eighth := Nat.div_pos (by omega) (by omega)
    have hle : eighth * 8 ≤ count := Nat.div_mul_le_self count 8
    have hmiddle (x : Nat) (hx : x + count ≤ n) : middle x < n :=
      ih x hpos (by omega) (by omega) (by omega)
    exact medianOfThree_lt less (hmiddle a ha) (hmiddle b hb) (hmiddle c hc)

theorem pivotPosition_lt (less : α → α → Bool) {xs : Array α} (hxs : 8 ≤ xs.size) :
    pivotPosition less xs < xs.size := by
  unfold pivotPosition
  exact median_lt _ (by omega) (by omega) (by omega) (by omega)

/-! ## §2. Parts. -/

variable {less : α → α → Bool}

/-- A test that does not tell elements of one level apart parts a row without changing a level. -/
theorem alike_parted (test : α → Bool) (htest : ∀ a b, level less a b = true → test a = test b)
    (xs : List α) : Alike less (xs.filter test ++ xs.filter fun x => !test x) xs := by
  intro a
  -- What is on the level of an element passes a test if that element does.
  have hsame (keep : Bool → Bool) : xs.filter (fun x => level less a x && keep (test x))
      = xs.filter fun x => level less a x && keep (test a) := by
    refine List.filter_congr fun x _ => ?_
    cases hx : level less a x with
    | false => rfl
    | true => rw [htest a x hx]
  have hkept := hsame id
  have hleft := hsame not
  simp only [id] at hkept
  rw [List.filter_append, List.filter_filter, List.filter_filter, hkept, hleft]
  cases test a <;> simp

/-- Nothing in a row is less than the bound that it comes with. -/
def IsBounded (less : α → α → Bool) (bound : Option α) (xs : List α) : Prop :=
  ∀ b, bound = some b → ∀ x ∈ xs, less x b = false

theorem isBounded_none (xs : List α) : IsBounded less none xs := by
  intro b hb
  cases hb

theorem IsBounded.filter {bound : Option α} {xs : List α} (hbound : IsBounded less bound xs)
    (test : α → Bool) : IsBounded less bound (xs.filter test) := by
  intro b hb x hx
  exact hbound b hb x (List.mem_filter.mp hx).1

/-- The pivot is the bound of the part that is not less. -/
theorem isBounded_pivot (pivot : α) (xs : List α) :
    IsBounded less (some pivot) (xs.filter fun x => !less x pivot) := by
  intro b hb x hx
  cases hb
  exact (Bool.not_eq_true' _).mp (List.mem_filter.mp hx).2

section Parts

variable (h : IsConsistent less)
include h

/-- What is on one level stands to the pivot alike. -/
theorem less_congr_left (pivot : α) {a b : α} (hab : level less a b = true) :
    less a pivot = less b pivot := by
  obtain ⟨hle, hge⟩ := level_iff.mp hab
  cases hb : less b pivot with
  | true => exact h.lt_of_le_of_lt hge hb
  | false => exact h.trans a b pivot hle hb

theorem less_congr_right (pivot : α) {a b : α} (hab : level less a b = true) :
    less pivot a = less pivot b := by
  obtain ⟨hle, hge⟩ := level_iff.mp hab
  cases hb : less pivot b with
  | true => exact h.lt_of_lt_of_le hb hle
  | false => exact h.trans pivot b a hb hge

/-- What is less than the pivot, sorted, and the rest, sorted. -/
theorem sorted_parts (pivot : α) (xs : List α) :
    stableSort less (xs.filter fun x => less x pivot)
        ++ stableSort less (xs.filter fun x => !less x pivot) = stableSort less xs := by
  refine eq_stableSort h (List.pairwise_append.mpr ⟨inOrder_stableSort h _,
    inOrder_stableSort h _, fun low hlow high hhigh => ?_⟩) ?_
  · have hlow := (List.mem_filter.mp ((stableSort_perm less _).mem_iff.mp hlow)).2
    have hhigh := (List.mem_filter.mp ((stableSort_perm less _).mem_iff.mp hhigh)).2
    rw [Bool.not_eq_true'] at hhigh
    exact h.trans high pivot low hhigh (h.asymm low pivot hlow)
  · have hparted := alike_parted (fun x => less x pivot)
      (fun a b hab => less_congr_left h pivot hab) xs
    exact ((alike_stableSort h _).append (alike_stableSort h _)).trans hparted

/-- What is on the level of the pivot, and what is greater, sorted, if nothing is less. -/
theorem sorted_least_parts {pivot : α} {xs : List α} (hleast : ∀ x ∈ xs, less x pivot = false) :
    (xs.filter fun x => !less pivot x) ++ stableSort less (xs.filter fun x => less pivot x)
      = stableSort less xs := by
  refine eq_stableSort h (List.pairwise_append.mpr ⟨?_, inOrder_stableSort h _,
    fun low hlow high hhigh => ?_⟩) ?_
  · refine List.pairwise_of_forall_mem_list fun a ha b hb => ?_
    have hb' := (List.mem_filter.mp ha).2
    rw [Bool.not_eq_true'] at hb'
    exact h.trans b pivot a (hleast b (List.mem_filter.mp hb).1) hb'
  · have hlow := (List.mem_filter.mp hlow).2
    have hhigh := (List.mem_filter.mp ((stableSort_perm less _).mem_iff.mp hhigh)).2
    rw [Bool.not_eq_true'] at hlow
    exact h.trans high pivot low (h.asymm pivot high hhigh) hlow
  · have hparted := alike_parted (fun x => !less pivot x)
      (fun a b hab => congrArg not (less_congr_right h pivot hab)) xs
    simp only [Bool.not_not] at hparted
    exact ((Alike.refl less _).append (alike_stableSort h _)).trans hparted

/-- Nothing is less than a pivot on the level of the bound, or if no such part was found. -/
theorem least_of_bound {bound : Option α} {pivot : α} {xs : List α}
    (hbound : IsBounded less bound xs)
    (hleast : (bound.any (fun b => !less b pivot)
      || (xs.filter fun x => less x pivot).isEmpty) = true) :
    ∀ x ∈ xs, less x pivot = false := by
  intro x hx
  rw [Bool.or_eq_true] at hleast
  rcases hleast with hany | hempty
  · cases bound with
    | none => cases hany
    | some b =>
      have hle : less b pivot = false := (Bool.not_eq_true' _).mp hany
      exact h.trans x b pivot (hbound b rfl x hx) hle
  · rw [List.isEmpty_iff, List.filter_eq_nil_iff] at hempty
    exact Bool.eq_false_iff.mpr (hempty x hx)

/-- Parting sorts a row in which nothing is less than the bound. -/
theorem sortByParts?_eq (times : Nat) {bound : Option α} {xs : List α}
    (hbound : IsBounded less bound xs) :
    sortByParts? less times bound xs = some (stableSort less xs) := by
  induction times generalizing bound xs with
  | zero =>
    unfold sortByParts?
    split
    · exact sortShort?_eq h xs
    · -- The runs are sorted at once, so no method is called.
      refine sortRuns?_eq h (fun hwhen => ?_) xs
      cases hwhen
  | succ times ih =>
    unfold sortByParts?
    split
    · exact sortShort?_eq h xs
    · rename_i hlong
      have hposition : pivotPosition less xs.toArray < xs.length := by
        have hlength : 8 ≤ xs.toArray.size := by
          rw [List.size_toArray]
          unfold shortLength at hlong
          omega
        exact pivotPosition_lt less hlength
      have hwhole := List.take_append_drop (pivotPosition less xs.toArray) xs
      simp only
      split
      · rename_i hdrop
        rw [List.drop_eq_nil_iff] at hdrop
        omega
      · rename_i pivot after hdrop
        rw [hdrop] at hwhole
        generalize xs.take (pivotPosition less xs.toArray) = before at hwhole ⊢
        -- The pivot is put where it passes, so the parts are those of the whole row.
        have hwith (test : α → Bool) (hpivot : test pivot = true) :
            before.filter test ++ pivot :: after.filter test = xs.filter test := by
          rw [← hwhole, List.filter_append, List.filter_cons_of_pos hpivot]
        have hwithout (test : α → Bool) (hpivot : test pivot = false) :
            before.filter test ++ after.filter test = xs.filter test := by
          rw [← hwhole, List.filter_append, List.filter_cons_of_neg (by simp [hpivot])]
        have hself := h.irrefl pivot
        rw [hwithout (fun x => less x pivot) hself, hwithout (fun x => less pivot x) hself,
          hwith (fun x => !less pivot x) (by simp [hself]),
          hwith (fun x => !less x pivot) (by simp [hself])]
        split
        · rename_i hleast
          have hmin := least_of_bound h hbound hleast
          rw [ih (isBounded_none _)]
          simp only
          rw [sorted_least_parts h hmin]
        · rw [ih (hbound.filter _), ih (isBounded_pivot pivot xs)]
          simp only
          rw [sorted_parts h]

theorem partSort?_eq (xs : List α) : partSort? less xs = some (stableSort less xs) :=
  sortByParts?_eq h _ (isBounded_none xs)

end Parts

/-! ## §3. Any row. -/

/-- The sort has a result for every consistent order: what insertion makes of the row. -/
theorem mergeSort?_eq (h : IsConsistent less) (xs : List α) :
    mergeSort? less xs = some (stableSort less xs) := by
  unfold mergeSort?
  split
  · rfl
  · exact sortRuns?_eq h (fun _ => partSort?_eq h) xs

/-- It is enough that the order is consistent on the elements that are sorted. -/
theorem mergeSort?_of_forall {keep : α → Bool}
    (hkeep : IsConsistent fun a b : { x // keep x = true } => less a b) {xs : List α}
    (hxs : ∀ x ∈ xs, keep x = true) : mergeSort? less xs = some (stableSort less xs) := by
  have himage : xs = (xs.attachWith _ hxs).map Subtype.val := by simp
  rw [himage, mergeSort?_map, mergeSort?_eq hkeep, stableSort_map]
  rfl

end Parley.Query
