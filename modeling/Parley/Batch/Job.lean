/-
  Parley.Batch.Job
  ────────────────────────────────
  **WORKING OFF A BATCH.**

  A job leases a batch of records and handles them.  A record that the guard
  holds back is stored as pending.  On any other an action is run; if the action
  does not report the record as handled, because there was nothing to do, or
  because it failed or panicked, the lease is ended.  What goes wrong with one
  record does not keep the others from being handled.

  That holds of what an action does once it is called.  Where an action panics
  in its very call there is no verdict to go by: the job breaks down with it, in
  the way that its world provides for.

  Whether the records are handled one after the other or side by side is left
  open (`Gather`).
-/
import Parley.Access

namespace Parley.Batch

open Parley.Query

/-! ## §1. Jobs. -/

/-- How an action on a record ends, once it was called.  `handled` says that its new state is stored,
which also ended the lease. -/
inductive Verdict where
  | handled
  | unchanged
  | failed
  | panicked
deriving DecidableEq, Repr, Inhabited

/-- What is done with a record. -/
abbrev Action (M : Type → Type) := Negotiation → M Verdict

/-- A way to carry out the handling of several records: the number of those that were handled. -/
abbrev Gather (M : Type → Type) := List (M Bool) → M Nat

/-- Which records are worked on, how many at a time, and in whose name. -/
structure Job where
  description : String
  handle : Handle
  criteria : List Criterion
  batchSize : Nat
  guard : Negotiation → Bool

variable {M : Type → Type} [Monad M]

namespace Job

/-! ## §2. One record. -/

/-- Lease a batch.  If the store refuses, there is no work. -/
def lease (j : Job) (a : Access M) : M (List Negotiation) := do
  match ← a.nextNotLeased j.handle j.batchSize j.criteria with
  | .error _ => return []
  | .ok batch => return batch

/-- Store a record as pending.  If the store refuses, the record stays as it is. -/
def park (j : Job) (a : Access M) (n : Negotiation) : M Unit := do
  let _ ← a.save j.handle (n.withPending true)

/-- What follows an action: whether the record counts as handled. -/
def conclude (j : Job) (a : Access M) (n : Negotiation) : Verdict → M Bool
  | .handled => return true
  | _ => do
    a.release j.handle n.id
    return false

/-- Handle one leased record. -/
def handleOne (j : Job) (a : Access M) (action : Action M) (n : Negotiation) : M Bool := do
  if j.guard n then
    j.park a n
    return false
  else
    j.conclude a n (← action n)

/-! ## §3. A batch. -/

/-- Lease a batch and handle it. -/
def process (j : Job) (a : Access M) (gather : Gather M) (action : Action M) : M Nat := do
  gather ((← j.lease a).map (j.handleOne a action))

end Job

/-- Handle records in order, each to its end. -/
def inOrder : Gather M
  | [] => return 0
  | one :: rest => do
    let handled ← one
    let count ← inOrder rest
    return count + if handled then 1 else 0

end Parley.Batch
