/-
  Parley.Proofs.Retry.Delay
  ────────────────────────────────
  **HOW LONG A RETRY WAITS.**

  An exponential delay is the base doubled from retry to retry, and no more than
  the maximum.  The product may be as large as it likes: where it does not fit
  into a duration it is above every maximum that a word can hold.  The factor may
  not: from the first power of two that does not fit into its word on, the delay
  is the maximum, however small the base is.

      delay_doubled        the delays, without a bound on the product
      doubled_iff_fits     where they are the minimum of the doubled base and the
                           maximum, and where they are not
      delay_mono           no strategy waits less for a later retry
      IsPast               whether a delay has passed, which is what decides on
                           sending again (isPast_of_shouldDelay)
-/
import Mathlib.Algebra.Order.Ring.Nat
import Parley.Retry.Attempt

namespace Parley

namespace Retry

namespace Backoff

/-! ## §1. The first try. -/

@[simp] theorem delay_zero (strategy : Backoff) : strategy.delay 0 = 0 := by
  cases strategy <;> rfl

/-! ## §2. Doubling. -/

variable {base max k : Nat}

/-- A maximum that a word can hold fits into a duration. -/
theorem lt_durationBound (hmax : max ≤ Word.unsigned64) : max < durationBound := by
  unfold durationBound
  omega

/-- While the factor fits, the bound on the product makes no difference. -/
theorem delay_doubled (hmax : max ≤ Word.unsigned64) (k : Nat) :
    (exponential base max).delay (k + 1)
      = if k < factorBits then min (base * 2 ^ k) max else max := by
  show (if k < factorBits then
      if base * 2 ^ k < durationBound then min (base * 2 ^ k) max else max else max) = _
  by_cases hk : k < factorBits
  · rw [if_pos hk, if_pos hk]
    by_cases hfits : base * 2 ^ k < durationBound
    · rw [if_pos hfits]
    · -- What does not fit into a duration is more than the maximum.
      have hbound := lt_durationBound hmax
      rw [if_neg hfits]
      omega
  · rw [if_neg hk, if_neg hk]

/-- For every base and every maximum of a word the first try does not wait, and the delay before a
retry is the doubled base, at most the maximum, exactly if the factor fits into its word or the
doubled base has come up to the maximum by then.  Otherwise it is the maximum. -/
theorem doubled_iff_fits (base max : Nat) (hmax : max ≤ Word.unsigned64) :
    (exponential base max).delay 0 = 0
      ∧ ∀ k, ((exponential base max).delay (k + 1) = min (base * 2 ^ k) max
            ↔ k < factorBits ∨ max ≤ base * 2 ^ k)
          ∧ (factorBits ≤ k → (exponential base max).delay (k + 1) = max) := by
  refine ⟨delay_zero _, fun k => ?_⟩
  rw [delay_doubled hmax k]
  by_cases hk : k < factorBits
  · rw [if_pos hk]
    exact ⟨⟨fun _ => .inl hk, fun _ => rfl⟩, fun hle => absurd hk (Nat.not_lt.mpr hle)⟩
  · rw [if_neg hk]
    refine ⟨⟨fun hmin => ?_, fun h => ?_⟩, fun _ => rfl⟩
    · right
      omega
    · have hle := h.resolve_left hk
      omega

/-- A base of a millisecond is doubled thirty-one times; then the delay leaps up to the maximum, and
a base of zero is no exception. -/
theorem doubling_cut_short :
    10000000000 ≤ Word.unsigned64
      ∧ (exponential 1 10000000000).delay 32 = min (1 * 2 ^ 31) 10000000000
      ∧ (exponential 1 10000000000).delay 33 = 10000000000
      ∧ (exponential 1 10000000000).delay 33 ≠ min (1 * 2 ^ 32) 10000000000
      ∧ (exponential 0 60000).delay 33 ≠ min (0 * 2 ^ 32) 60000 := by
  have hword : 10000000000 ≤ Word.unsigned64 := by decide
  have hmillisecond := (doubled_iff_fits 1 10000000000 hword).2
  have hzero := (doubled_iff_fits 0 60000 (by decide)).2
  refine ⟨hword, (hmillisecond 31).1.mpr (.inl (by decide)), (hmillisecond 32).2 (by decide),
    ?_, ?_⟩
  · intro hmin
    have hfits := (hmillisecond 32).1.mp hmin
    revert hfits
    decide
  · intro hmin
    have hfits := (hzero 32).1.mp hmin
    revert hfits
    decide

/-! ## §3. Later retries. -/

/-- The delay before a retry is at most that before the next. -/
theorem delay_le_succ (strategy : Backoff) (k : Nat) :
    strategy.delay k ≤ strategy.delay (k + 1) := by
  cases k with
  | zero =>
    rw [delay_zero]
    exact Nat.zero_le _
  | succ k =>
    cases strategy with
    | fixed delay => exact Nat.le_refl _
    | immediate => exact Nat.le_refl _
    | exponential base max =>
      have hdouble : base * 2 ^ k ≤ base * 2 ^ (k + 1) :=
        Nat.mul_le_mul_left base (Nat.pow_le_pow_right (by omega) (Nat.le_succ k))
      show (if k < factorBits then
          if base * 2 ^ k < durationBound then min (base * 2 ^ k) max else max else max)
        ≤ if k + 1 < factorBits then
          if base * 2 ^ (k + 1) < durationBound then min (base * 2 ^ (k + 1)) max else max else max
      -- Once the maximum is taken it is taken ever after.
      by_cases hnext : k + 1 < factorBits
      · rw [if_pos hnext, if_pos (show k < factorBits by omega)]
        split <;> split <;> omega
      · rw [if_neg hnext]
        split
        · split <;> omega
        · exact Nat.le_refl _

/-- No strategy waits less for a later retry. -/
theorem delay_mono (strategy : Backoff) {j k : Nat} (hjk : j ≤ k) :
    strategy.delay j ≤ strategy.delay k := by
  induction hjk with
  | refl => exact Nat.le_refl _
  | step _ ih => exact Nat.le_trans ih (delay_le_succ strategy _)

end Backoff

end Retry

/-! ## §4. The end of a delay. -/

/-- Whether the delay after a number of failures has passed, if the last of them was at a time.  A
delay that ends at no date never has. -/
structure Retry.RetryPolicy.IsPast (p : RetryPolicy) (k : Nat) (t now : Instant) : Prop where
  bounded : p.strategy.delay k ≤ longestDelay
  dated : (t.addMillis (p.strategy.delay k)).isLate = false
  passed : t.addMillis (p.strategy.delay k) ≤ now

namespace Retry.RetryPolicy

instance (p : RetryPolicy) (k : Nat) (t now : Instant) : Decidable (p.IsPast k t now) :=
  decidable_of_iff
    (p.strategy.delay k ≤ longestDelay ∧ (t.addMillis (p.strategy.delay k)).isLate = false
      ∧ t.addMillis (p.strategy.delay k) ≤ now)
    ⟨fun h => ⟨h.1, h.2.1, h.2.2⟩, fun h => ⟨h.bounded, h.dated, h.passed⟩⟩

variable {p : RetryPolicy} {n : Negotiation} {j k : Nat} {t t' now : Instant}

/-- A record that was tried before is sent again only when its delay has passed. -/
theorem isPast_of_shouldDelay (hcount : n.stateCount ≠ 0) (h : p.shouldDelay n now = false) :
    p.IsPast n.stateCount n.stateTimestamp now := by
  unfold shouldDelay at h
  rw [if_neg hcount] at h
  cases hdue : p.due? n with
  | none =>
    rw [hdue] at h
    cases h
  | some due =>
    rw [hdue] at h
    unfold due? at hdue
    dsimp only at hdue
    split at hdue
    · rename_i hfits
      cases hdue
      refine ⟨hfits.1, hfits.2, ?_⟩
      have hnot := of_decide_eq_false h
      rw [Instant.lt_def] at hnot
      rw [Instant.le_def]
      omega
    · cases hdue

/-- When its delay has passed a record does not wait any longer. -/
theorem shouldDelay_of_isPast (h : p.IsPast n.stateCount n.stateTimestamp now) :
    p.shouldDelay n now = false := by
  have hdue : p.due? n = some (n.stateTimestamp.addMillis (p.strategy.delay n.stateCount)) :=
    if_pos ⟨h.bounded, h.dated⟩
  unfold shouldDelay
  rw [hdue]
  split
  · rfl
  · have hle := h.passed
    rw [Instant.le_def] at hle
    refine decide_eq_false ?_
    rw [Instant.lt_def]
    omega

theorem shouldDelay_eq_false_iff : p.shouldDelay n now = false
    ↔ (n.stateCount ≠ 0 → p.IsPast n.stateCount n.stateTimestamp now) := by
  constructor
  · intro h hcount
    exact isPast_of_shouldDelay hcount h
  · intro h
    by_cases hcount : n.stateCount = 0
    · exact if_pos hcount
    · exact shouldDelay_of_isPast (h hcount)

/-- A delay that has passed since a time has passed since every earlier one, after fewer failures.
That is so outside leap seconds only: who waits from within one does not count it, and so may wait
less than one who began before it. -/
theorem IsPast.mono (h : p.IsPast k t' now) (hjk : j ≤ k) (htt : t ≤ t') (ht : t.leap = false)
    (ht' : t'.leap = false) : p.IsPast j t now := by
  have hdelay := Backoff.delay_mono p.strategy hjk
  have hnanos := (Instant.le_iff_nanos ht ht').mp htt
  have hends : t.addMillis (p.strategy.delay j) ≤ t'.addMillis (p.strategy.delay k) := by
    rw [Instant.le_iff_nanos (Instant.leap_addMillis ht _) (Instant.leap_addMillis ht' _),
      Instant.nanos_addMillis ht, Instant.nanos_addMillis ht']
    unfold Instant.perMilli
    omega
  refine ⟨Nat.le_trans hdelay h.bounded, Instant.not_isLate_of_le hends h.dated, ?_⟩
  have hpassed := h.passed
  rw [Instant.le_def] at hends hpassed ⊢
  omega

/-- Between two dates no delay is too long. -/
theorem isPast_of_passed (ht : t.isDate = true) (hnow : now.isDate = true)
    (h : t.addMillis (p.strategy.delay k) ≤ now) : p.IsPast k t now := by
  unfold Instant.isDate at ht hnow
  rw [Bool.and_eq_true, decide_eq_true_eq, Bool.not_eq_true'] at ht hnow
  refine ⟨?_, Instant.not_isLate_of_le h hnow.2, h⟩
  -- From the first date to the last there are fewer milliseconds.
  have hmoved := t.second_addMillis (p.strategy.delay k)
  have hlast := Instant.second_le_of_le h
  have hlate := hnow.2
  unfold Instant.isLate Instant.lastMilli at hlate
  rw [decide_eq_false_iff_not] at hlate
  have hfirst := ht.1
  unfold Instant.firstMilli at hfirst
  show p.strategy.delay k ≤ 9223372036854775807
  omega

end Retry.RetryPolicy

end Parley
