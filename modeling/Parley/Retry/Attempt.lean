/-
  Parley.Retry.Attempt
  ────────────────────────────────
  **ATTEMPTS AT A SEND.**

  A send that failed and may be tried again is repeated in the same state, at
  most as often as the limit says, and not before the delay since the state's
  timestamp has passed.  What became of an attempt is judged against the record
  as it is stored after the send (`classify`), since it may have changed
  meanwhile.
-/
import Parley.Retry.Backoff
import Parley.Negotiation.Message

namespace Parley.Retry

/-! ## §1. Before the send. -/

/-- How often a send is tried in one state, and how long it waits in between. -/
structure RetryPolicy where
  limit : Nat
  strategy : Backoff
deriving DecidableEq, Repr, Inhabited

namespace RetryPolicy

/-- Whether a failure now is the last that is allowed. -/
def isExhausted (p : RetryPolicy) (n : Negotiation) : Bool :=
  p.limit ≤ n.stateCount + 1

/-- The longest delay that can be added to a time, in milliseconds. -/
def longestDelay : Nat := Word.signed64

/-- The instant before which a record is not sent again; `none` if no date is that late. -/
def due? (p : RetryPolicy) (n : Negotiation) : Option Instant :=
  let delay := p.strategy.delay n.stateCount
  let due := n.stateTimestamp.addMillis delay
  if delay ≤ longestDelay ∧ due.isLate = false then some due else none

/-- Whether a record has to wait: it was tried before and its delay has not passed. -/
def shouldDelay (p : RetryPolicy) (n : Negotiation) (now : Instant) : Bool :=
  if n.stateCount = 0 then false
  else
    match p.due? n with
    | some due => now < due
    | none => true

end RetryPolicy

/-! ## §2. After the send. -/

/-- What became of an attempt.  But for the first two the record is the one stored after the
send. -/
inductive Outcome (α : Type) where
  /-- The delay has not passed and nothing was sent. -/
  | delayed (n : Negotiation)
  /-- The record disappeared during the send. -/
  | abandoned
  | succeeded (n : Negotiation) (value : α)
  /-- A failure with attempts left. -/
  | failed (n : Negotiation) (failure : DispatchFailure)
  | fatal (n : Negotiation) (failure : DispatchFailure)
  /-- A failure on the last attempt. -/
  | exhausted (n : Negotiation) (failure : DispatchFailure)
deriving Repr

/-- Whether an attempt counts as work done. -/
def Outcome.processed {α : Type} : Outcome α → Bool
  | .delayed _ => false
  | _ => true

/-- What became of a send, given the record as it is stored after it, if it is, and its result. -/
def RetryPolicy.classify {α : Type} (p : RetryPolicy) (stored : Option Negotiation)
    (result : Except DispatchFailure α) : Outcome α :=
  match stored with
  | none => .abandoned
  | some current =>
    match result with
    | .ok value => .succeeded current value
    | .error failure =>
      if failure.isFatal then .fatal current failure
      else if p.isExhausted current then .exhausted current failure
      else .failed current failure

end Parley.Retry
