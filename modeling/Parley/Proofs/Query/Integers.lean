/-
  Parley.Proofs.Query.Integers
  ────────────────────────────────
  **WHOLE NUMBERS IN CRITERIA.**

  Whole numbers are compared as the nearest binary numbers, so two of them may
  be equal in a criterion without being the same.  A number below `2 ^ 53` is
  its own nearest (`units_ofInt`), and no larger one is rounded to less than
  `2 ^ 53` (`units_ofInt_large`).  So a number that is as small as the codes of
  states is found where it is written, and nowhere else (`valuesEqual_int`).
-/
import Mathlib.Algebra.Order.Ring.Nat
import Parley.Query.Resolve

namespace Parley

namespace Decimal.Binary64

/-! ## §1. Rounding. -/

/-- Rounding moves a quotient up by one at most, and never down. -/
theorem roundQuotient_bounds (num den : Nat) :
    num / den ≤ roundQuotient num den ∧ roundQuotient num den ≤ num / den + 1 := by
  unfold roundQuotient
  dsimp only
  constructor <;> repeat' split
  all_goals omega

@[simp] theorem roundQuotient_one (n : Nat) : roundQuotient n 1 = n := by
  simp [roundQuotient, Nat.mod_one]

variable {n : Nat}

/-- A whole number has its leading bit in the place of the significand's leading bit. -/
theorem exponentFor_one (hn : n ≠ 0) : exponentFor n 1 = (n.log2 : Int) - 52 := by
  have hlow : 2 ^ n.log2 ≤ n := Nat.log2_self_le hn
  -- The guess leaves a quotient of 54 bits.
  have hguess : ¬ (scaleDown n 1 ((n.log2 : Int) - 53)).1
      / (scaleDown n 1 ((n.log2 : Int) - 53)).2 < Nat.pow 2 53 := by
    show ¬ n * 2 ^ (-((n.log2 : Int) - 53)).toNat / (1 * 2 ^ ((n.log2 : Int) - 53).toNat) < 2 ^ 53
    rw [Nat.one_mul, Nat.not_lt, Nat.le_div_iff_mul_le (Nat.two_pow_pos _), ← Nat.pow_add]
    calc 2 ^ (53 + ((n.log2 : Int) - 53).toNat)
        = 2 ^ n.log2 * 2 ^ (-((n.log2 : Int) - 53)).toNat := by
          rw [← Nat.pow_add]
          congr 1
          omega
      _ ≤ n * 2 ^ (-((n.log2 : Int) - 53)).toNat := Nat.mul_le_mul_right _ hlow
  have hlog : Nat.log2 1 = 0 := by decide
  unfold exponentFor leastExponent
  simp only [hlog, Int.natCast_zero, Int.sub_zero]
  rw [if_neg hguess]
  omega

/-- A number below `2 ^ 53` is in the format, with its bits moved up. -/
theorem ofRatio_small (negative : Bool) (hn : n ≠ 0) (hsmall : n < 2 ^ 53) :
    ofRatio negative n 1 = .finite negative (n * 2 ^ (52 - n.log2)) ((n.log2 : Int) - 52) := by
  have hlog : n.log2 < 53 := (Nat.log2_lt hn).mpr hsmall
  have hscale : scaleDown n 1 ((n.log2 : Int) - 52) = (n * 2 ^ (52 - n.log2), 1) := by
    have hup : (-((n.log2 : Int) - 52)).toNat = 52 - n.log2 := by omega
    have hdown : ((n.log2 : Int) - 52).toNat = 0 := by omega
    unfold scaleDown
    rw [hup, hdown]
    rfl
  have hfits : n * 2 ^ (52 - n.log2) ≠ Nat.pow 2 53 := by
    have hlt : n * 2 ^ (52 - n.log2) < 2 ^ (n.log2 + 1) * 2 ^ (52 - n.log2) :=
      Nat.mul_lt_mul_of_pos_right Nat.lt_log2_self (Nat.two_pow_pos _)
    rw [← Nat.pow_add, show n.log2 + 1 + (52 - n.log2) = 53 by omega] at hlt
    exact Nat.ne_of_lt hlt
  unfold ofRatio
  simp only [if_neg hn, exponentFor_one hn, hscale, roundQuotient_one, if_neg hfits]
  rw [if_neg]
  unfold greatestExponent
  omega

/-- The unit of all finite numbers, of which every whole number is a multiple. -/
def unitsInOne : Nat :=
  2 ^ (-leastExponent).toNat

theorem unitsInOne_pos : 0 < unitsInOne :=
  Nat.two_pow_pos _

/-- A whole number that the format holds has its value there. -/
theorem units_ofInt {k : Int} (hsmall : k.natAbs < 2 ^ 53) :
    ∃ m e, ofInt k = .finite (k < 0) m e ∧ units (k < 0) m e = k * unitsInOne := by
  by_cases hzero : k = 0
  · subst hzero
    have hnone : ofInt 0 = .finite false 0 leastExponent := by simp [ofInt, ofRatio]
    refine ⟨0, leastExponent, hnone, ?_⟩
    unfold units
    simp only [Nat.zero_mul, Int.natCast_zero, Int.neg_zero, Int.zero_mul, ite_self]
  · have hn : k.natAbs ≠ 0 := Int.natAbs_ne_zero.mpr hzero
    have hlog : k.natAbs.log2 < 53 := (Nat.log2_lt hn).mpr hsmall
    refine ⟨_, _, ofRatio_small _ hn hsmall, ?_⟩
    have hvalue : k.natAbs * 2 ^ (52 - k.natAbs.log2)
        * Nat.pow 2 (((k.natAbs.log2 : Int) - 52 - leastExponent).toNat)
          = k.natAbs * unitsInOne := by
      show k.natAbs * 2 ^ (52 - k.natAbs.log2) * 2 ^ _ = _
      rw [Nat.mul_assoc, ← Nat.pow_add]
      unfold unitsInOne leastExponent
      congr 2
      omega
    unfold units
    simp only [hvalue, Int.natCast_mul, decide_eq_true_eq]
    split
    · rw [← Int.neg_mul]
      congr 1
      omega
    · congr 1
      omega

/-- A number that does not fit is not rounded to less than the least that does not. -/
theorem units_ofInt_large {k : Int} (hlarge : 2 ^ 53 ≤ k.natAbs) :
    ofInt k = .infinite (k < 0)
      ∨ ∃ m e, ofInt k = .finite (k < 0) m e
          ∧ 2 ^ 53 * unitsInOne ≤ (units (k < 0) m e).natAbs := by
  have hn : k.natAbs ≠ 0 := by
    intro h0
    rw [h0] at hlarge
    exact absurd hlarge (by decide)
  have hlog : 53 ≤ k.natAbs.log2 := (Nat.le_log2 hn).mpr hlarge
  have hscale : scaleDown k.natAbs 1 ((k.natAbs.log2 : Int) - 52)
      = (k.natAbs, 2 ^ (k.natAbs.log2 - 52)) := by
    have hup : (-((k.natAbs.log2 : Int) - 52)).toNat = 0 := by omega
    have hdown : ((k.natAbs.log2 : Int) - 52).toNat = k.natAbs.log2 - 52 := by omega
    unfold scaleDown
    rw [hup, hdown]
    show (k.natAbs * 1, 1 * 2 ^ (k.natAbs.log2 - 52)) = _
    rw [Nat.mul_one, Nat.one_mul]
  have hfull : 2 ^ 52 ≤ roundQuotient k.natAbs (2 ^ (k.natAbs.log2 - 52)) := by
    refine Nat.le_trans ?_ (roundQuotient_bounds _ _).1
    rw [Nat.le_div_iff_mul_le (Nat.two_pow_pos _), ← Nat.pow_add,
      show 52 + (k.natAbs.log2 - 52) = k.natAbs.log2 by omega]
    exact Nat.log2_self_le hn
  -- A full significand with an exponent of one or more.
  have hunits (m : Nat) (e : Int) (hm : 2 ^ 52 ≤ m) (he : 1 ≤ e) :
      2 ^ 53 * unitsInOne ≤ (units (k < 0) m e).natAbs := by
    have habs : (units (k < 0) m e).natAbs = m * 2 ^ (e - leastExponent).toNat := by
      unfold units
      simp only
      split
      · rw [Int.natAbs_neg, Int.natAbs_natCast]
        rfl
      · rw [Int.natAbs_natCast]
        rfl
    rw [habs]
    calc 2 ^ 53 * unitsInOne = 2 ^ 52 * 2 ^ (1 - leastExponent).toNat := by
          unfold unitsInOne
          rw [← Nat.pow_add, ← Nat.pow_add]
          congr 1
      _ ≤ m * 2 ^ (e - leastExponent).toNat := by
          refine Nat.mul_le_mul hm (Nat.pow_le_pow_right (by decide) ?_)
          omega
  unfold ofInt ofRatio
  simp only [if_neg hn, exponentFor_one hn, hscale]
  by_cases hcarry : roundQuotient k.natAbs (2 ^ (k.natAbs.log2 - 52)) = Nat.pow 2 53
  · simp only [if_pos hcarry]
    split
    · exact .inl rfl
    · exact .inr ⟨_, _, rfl, hunits _ _ (Nat.le_refl _) (by omega)⟩
  · simp only [if_neg hcarry]
    split
    · exact .inl rfl
    · exact .inr ⟨_, _, rfl, hunits _ _ hfull (by omega)⟩

/-! ## §2. Comparing. -/

/-- Nothing is rounded to a number below `2 ^ 53` but the number itself. -/
theorem compare?_ofInt_eq_iff (j : Int) {k : Int} (hsmall : k.natAbs < 2 ^ 53) :
    (ofInt j).compare? (ofInt k) = some .eq ↔ j = k := by
  obtain ⟨m, e, hk, hkunits⟩ := units_ofInt hsmall
  rw [hk]
  by_cases hj : j.natAbs < 2 ^ 53
  · obtain ⟨m', e', hj', hjunits⟩ := units_ofInt hj
    rw [hj']
    show some (compare (units _ m' e') (units _ m e)) = some .eq ↔ _
    rw [hjunits, hkunits, Option.some.injEq, Std.compare_eq_iff_eq]
    exact Int.mul_eq_mul_right_iff (Int.natCast_ne_zero.mpr (Nat.ne_of_gt unitsInOne_pos))
  · have hne : j ≠ k := fun heq => hj (heq ▸ hsmall)
    refine ⟨fun heq => ?_, fun heq => absurd heq hne⟩
    rcases units_ofInt_large (Nat.not_lt.mp hj) with hj' | ⟨m', e', hj', hbound⟩
    · rw [hj'] at heq
      have horder := Option.some.inj heq
      split at horder <;> cases horder
    · rw [hj'] at heq
      have hsame : units (j < 0) m' e' = units (k < 0) m e :=
        Std.compare_eq_iff_eq.mp (Option.some.inj heq)
      rw [hsame, hkunits, Int.natAbs_mul, Int.natAbs_natCast] at hbound
      have hle := Nat.le_of_mul_le_mul_right hbound unitsInOne_pos
      omega

end Decimal.Binary64

namespace Query

open Parley.Decimal

/-- A small whole number is equal to no other. -/
theorem valuesEqual_int (j : Int) {k : Int} (hsmall : k.natAbs < 2 ^ 53) :
    valuesEqual (.int j) (.int k) = decide (j = k) := by
  show ((Binary64.ofInt j).compare? (Binary64.ofInt k) == some .eq) = decide (j = k)
  rw [Bool.eq_iff_iff, beq_iff_eq, decide_eq_true_iff]
  exact Binary64.compare?_ofInt_eq_iff j hsmall

/-- Twice the bits are not enough for the next number. -/
example : valuesEqual (.int (2 ^ 53 + 1)) (.int (2 ^ 53)) = true := by decide +kernel

/-- The codes of states are small. -/
theorem valuesEqual_stateCode (j : Int) (s : State) :
    valuesEqual (.int j) (.int s.code) = decide (j = s.code) := by
  refine valuesEqual_int j ?_
  cases s <;> decide

end Query

end Parley
