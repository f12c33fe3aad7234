/-
  Parley.Proofs.Settings.Delays
  ────────────────────────────────
  **THE DELAYS THAT SETTINGS GIVE.**

  No strategy delays for longer than some time, its ceiling, however often a send
  was tried: where a doubled base does not fit into its word or into a duration,
  the ceiling is taken.  The ceiling of an exponential strategy is the maximum of
  the settings.  That of a fixed one is the base, and it is the check of the
  settings that keeps the base down to the maximum.

      delay_le_ceiling         no delay is above the ceiling
      ceiling_backoff_le       the ceiling is at most the maximum of the settings
      delays_grow_to_max       the delays of settings that pass
-/
import Parley.Proofs.Retry.Delay
import Parley.Settings.Basic

namespace Parley

/-! ## §1. Ceilings. -/

namespace Retry.Backoff

/-- The longest that a strategy may delay. -/
def ceiling : Backoff → Nat
  | .exponential _ max => max
  | .fixed delay => delay
  | .immediate => 0

theorem delay_le_ceiling (strategy : Backoff) (k : Nat) : strategy.delay k ≤ strategy.ceiling := by
  cases k with
  | zero =>
    rw [delay_zero]
    exact Nat.zero_le _
  | succ k =>
    cases strategy with
    | fixed delay => exact Nat.le_refl _
    | immediate => exact Nat.le_refl _
    | exponential base max =>
      show (if k < factorBits then
          if base * 2 ^ k < durationBound then min (base * 2 ^ k) max else max else max) ≤ max
      -- The maximum is taken twice: for a factor and for a product that does not fit.
      split
      · split
        · exact Nat.min_le_right _ _
        · exact Nat.le_refl _
      · exact Nat.le_refl _

end Retry.Backoff

/-! ## §2. Settings that pass. -/

namespace Settings

variable {s : Settings}

theorem ceiling_backoff_le (h : s.fault? = none) : s.backoff.ceiling ≤ s.retry.maxDelay := by
  unfold backoff
  cases s.retry.strategy with
  | exponential => exact Nat.le_refl _
  | fixed => exact baseDelay_le_of_fault? h
  | none => exact Nat.zero_le _

/-- Settings of any strategy that pass the check: the first try does not wait, a later retry waits at
least as long as an earlier one, and none waits for longer than the maximum. -/
theorem delays_grow_to_max (s : Settings) (hpass : s.validate = .ok ()) :
    s.backoff.delay 0 = 0
      ∧ ∀ i j, i ≤ j → s.backoff.delay i ≤ s.backoff.delay j
        ∧ s.backoff.delay j ≤ s.retry.maxDelay := by
  have hceiling := ceiling_backoff_le (validate_eq_ok_iff.mp hpass)
  refine ⟨Retry.Backoff.delay_zero _, fun i j hij => ⟨Retry.Backoff.delay_mono _ hij, ?_⟩⟩
  exact Nat.le_trans (Retry.Backoff.delay_le_ceiling _ j) hceiling

/-- A base of zero is doubled to zero until the factor does not fit, a large one until the product
does not fit, and a fixed delay may be as long as the maximum. -/
theorem delays_leap_to_max :
    let zero : Settings := { retry := { baseDelay := 0, maxDelay := 18446744073709551615 } }
    let large : Settings :=
      { retry := { baseDelay := 18446744073709551614, maxDelay := 18446744073709551615 } }
    let fixed : Settings :=
      { retry := { strategy := .fixed, baseDelay := 60000, maxDelay := 60000 } }
    (zero.backoff.delay 0, zero.backoff.delay 32, zero.backoff.delay 33)
        = (0, 0, 18446744073709551615)
      ∧ zero.backoff.delay 32 ≤ zero.backoff.delay 33
      ∧ zero.backoff.delay 33 ≤ zero.retry.maxDelay
      ∧ (large.backoff.delay 1, large.backoff.delay 12)
        = (18446744073709551614, 18446744073709551615)
      ∧ large.backoff.delay 1 ≤ large.backoff.delay 12
      ∧ large.backoff.delay 12 ≤ large.retry.maxDelay
      ∧ fixed.backoff.delay 0 = 0
      ∧ fixed.backoff.delay 1 ≤ fixed.backoff.delay 4294967295
      ∧ fixed.backoff.delay 4294967295 ≤ fixed.retry.maxDelay := by
  intro zero large fixed
  have hzero := (delays_grow_to_max zero (by decide +kernel)).2 32 33 (by decide)
  have hlarge := (delays_grow_to_max large (by decide +kernel)).2 1 12 (by decide)
  have hfixed := delays_grow_to_max fixed (by decide +kernel)
  have hlast := hfixed.2 1 4294967295 (by decide)
  exact ⟨by decide, hzero.1, hzero.2, by decide, hlarge.1, hlarge.2, hfixed.1, hlast.1, hlast.2⟩

end Settings

end Parley
