/-
  Parley.Proofs.Query.Sort.Short
  ────────────────────────────────
  **SHORT ROWS ARE SORTED.**

  Four elements that are sorted by five comparisons, a half that goes on by
  insertion, and two halves merged from both ends are all what insertion makes
  of the row (`sortShort?_eq`).
-/
import Parley.Proofs.Query.Sort.Merge

namespace Parley.Query

variable {less : α → α → Bool}

theorem sortTwo_eq (less : α → α → Bool) (a b : α) :
    sortTwo less a b = stableSort less [a, b] := by
  show (if less b a then _ else _) = (if less b a then _ else _ : List α).reverse
  split
  · rfl
  · rfl

variable (h : IsConsistent less)
include h

/-- The sides that are found by looking at the ends first are those of a merge. -/
theorem interleave_pairSides {a b c d : α} (hab : less b a = false) (hcd : less d c = false) :
    interleave (pairSides less [a, b] [c, d]) [a, b] [c, d] = merged less [a, b] [c, d] := by
  simp only [pairSides, merged_cons_cons, merged_nil_left, merged_nil_right]
  cases hca : less c a with
  | true =>
    cases hdb : less d b with
    | true =>
      cases hda : less d a <;> rfl
    | false =>
      have hda : less d a = false := h.trans d b a hdb hab
      simp [interleave, hda]
  | false =>
    cases hdb : less d b with
    | true =>
      have hcb : less c b = true := h.lt_of_le_of_lt hcd hdb
      simp [interleave, hcb]
    | false =>
      cases hcb : less c b <;> simp [interleave]

theorem exists_sortTwo (a b : α) : ∃ p q, sortTwo less a b = [p, q] ∧ less q p = false := by
  unfold sortTwo
  cases hba : less b a with
  | true => exact ⟨b, a, rfl, h.asymm b a hba⟩
  | false => exact ⟨a, b, rfl, hba⟩

theorem sortFour_eq (a b c d : α) : sortFour less a b c d = stableSort less [a, b, c, d] := by
  have hsorted := stableSort_append_stableSort h [a, b] [c, d]
  rw [← sortTwo_eq, ← sortTwo_eq] at hsorted
  obtain ⟨p, q, hpq, hle⟩ := exists_sortTwo h a b
  obtain ⟨r, s, hrs, hle'⟩ := exists_sortTwo h c d
  unfold sortFour
  simp only
  rw [hpq, hrs] at hsorted ⊢
  rw [interleave_pairSides h hle hle', merged_eq h (by simpa [InOrder] using hle)
    (by simpa [InOrder] using hle'), hsorted]
  rfl

theorem sortHalf_eq (xs : List α) : sortHalf less xs = stableSort less xs := by
  match xs with
  | [] => rfl
  | [a] => rfl
  | [a, b] => rfl
  | [a, b, c] => rfl
  | a :: b :: c :: d :: rest =>
    show insertAll less (sortFour less a b c d) rest = _
    rw [sortFour_eq h, ← stableSort_append]
    rfl

/-- A short row is sorted. -/
theorem sortShort?_eq (xs : List α) : sortShort? less xs = some (stableSort less xs) := by
  have hhalves (ys : List α) :
      (if xs.length < 8 then stableSort less else sortHalf less) ys = stableSort less ys := by
    split
    · rfl
    · exact sortHalf_eq h ys
  have hfront := (stableSort_perm less (xs.take (xs.length / 2))).length_eq
  have hback := (stableSort_perm less (xs.drop (xs.length / 2))).length_eq
  rw [List.length_take] at hfront
  rw [List.length_drop] at hback
  unfold sortShort?
  simp only [hhalves]
  rw [mergeBothEnds?_eq h (inOrder_stableSort h _) (inOrder_stableSort h _) (by omega) (by omega),
    stableSort_append_stableSort h, List.take_append_drop]

end Parley.Query
