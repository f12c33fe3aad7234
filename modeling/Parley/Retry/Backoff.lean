/-
  Parley.Retry.Backoff
  ────────────────────────────────
  **DELAYS BETWEEN RETRIES.**

  The first try of a send never waits.  The k-th retry waits for a time that a
  strategy gives: doubling from a base up to a maximum, the same every time, or
  none.  The doubling is done with a factor of 32 bits and a duration of 64 bits
  of seconds; where either does not suffice, the maximum is taken.
-/
import Parley.Decimal.Word

namespace Parley.Retry

/-- How long to wait before a retry, in milliseconds. -/
inductive Backoff where
  | exponential (base max : Nat)
  | fixed (delay : Nat)
  | immediate
deriving DecidableEq, Repr, Inhabited

/-- The bits of a factor. -/
def factorBits : Nat := 32

/-- The first duration, in milliseconds, that does not fit. -/
def durationBound : Nat := (Word.unsigned64 + 1) * 1000

/-- The delay before a retry; the number of the retry is one at the first. -/
def Backoff.delay : Backoff → Nat → Nat
  | _, 0 => 0
  | .exponential base max, attempt + 1 =>
    if attempt < factorBits then
      if base * Nat.pow 2 attempt < durationBound then min (base * Nat.pow 2 attempt) max else max
    else max
  | .fixed delay, _ + 1 => delay
  | .immediate, _ + 1 => 0

end Parley.Retry
