/-
  Parley.Negotiation.Lease
  ────────────────────────────────
  **LEASES.**

  A lease gives one worker the exclusive right to a record for a time.  It is
  live before its expiry and protects nothing from then on: at the very instant
  of the expiry another worker may take the record.

  The durations that can be set for leases go beyond the calendar.  Of a lease
  that ends at no date (`hasEnd`) nobody can say whether it has ended: whoever
  asks breaks down.
-/
import Parley.Time.Instant

namespace Parley

/-- A claim on a record: who holds it, since when, and for how many milliseconds. -/
structure Lease where
  holder : String
  since : Instant
  duration : Int
deriving DecidableEq, Repr, Inhabited

namespace Lease

/-- The instant at which a lease ends. -/
def expiry (l : Lease) : Instant :=
  l.since.addMillis l.duration

/-- Whether the end of a lease is a date. -/
def hasEnd (l : Lease) : Bool :=
  l.expiry.isDate

/-- Whether a lease has ended by an instant. -/
def isExpired (l : Lease) (now : Instant) : Bool :=
  l.expiry ≤ now

/-- Whether a worker holds a lease. -/
def isHeldBy (l : Lease) (holder : String) : Bool :=
  l.holder = holder

/-- A lease protects its record against a worker while it has not ended and another one holds it. -/
def shieldsFrom (l : Lease) (holder : String) (now : Instant) : Bool :=
  !l.isExpired now && !l.isHeldBy holder

theorem isExpired_iff (l : Lease) (now : Instant) :
    l.isExpired now = true ↔ l.expiry ≤ now := by
  simp [isExpired]

theorem shieldsFrom_iff (l : Lease) (holder : String) (now : Instant) :
    l.shieldsFrom holder now = true ↔ ¬ l.expiry ≤ now ∧ l.holder ≠ holder := by
  simp [shieldsFrom, isExpired, isHeldBy]

end Lease

end Parley
