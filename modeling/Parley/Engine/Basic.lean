/-
  Parley.Engine.Basic
  ────────────────────────────────
  **THE ENGINE OF A PARTICIPANT.**

  An engine drives the negotiations of one participant.  Every change of state
  takes one path (`persist`): it is stored, which ends the engine's lease on the
  record, and only then announced.  A transition that fails leaves the world as
  it is.
-/
import Parley.Engine.Error
import Parley.Access

namespace Parley

open Parley.Retry

/-- A participant's engine.  Batches are leased up to a size, and of a batch only so many messages
are on their way at a time.  A negotiation that the guard holds back is stored as pending instead of
being worked on. -/
structure Engine where
  participantId : String
  callbackAddress : String
  batchSize : Nat
  maxConcurrent : Nat
  retry : RetryPolicy
  handle : Handle
  guard : Negotiation → Bool

/-- How an operation on a negotiation ends: with the record as it became, or a refusal. -/
abbrev Handled := Except NegotiationError Negotiation

namespace Engine

/-- The engine that runs with some settings on a store's handle; faulty settings are refused. -/
def ofSettings (s : Settings) (handle : Handle) (guard : Negotiation → Bool) :
    Except NegotiationError Engine :=
  match s.validate with
  | .error e => .error (.settings e)
  | .ok () => .ok {
      participantId := s.participantId
      callbackAddress := s.callbackAddress
      batchSize := s.polling.batchSize
      maxConcurrent := s.polling.maxConcurrent
      retry := s.retryPolicy
      handle := handle
      guard := guard }

/-- An engine runs with settings without a fault, and as they say. -/
theorem ofSettings_eq_ok {s : Settings} {handle : Handle} {guard : Negotiation → Bool} {e : Engine}
    (h : ofSettings s handle guard = .ok e) : s.fault? = none
      ∧ e.batchSize = s.polling.batchSize ∧ e.maxConcurrent = s.polling.maxConcurrent
      ∧ e.retry = s.retryPolicy ∧ e.guard = guard := by
  unfold ofSettings Settings.validate at h
  cases hfault : s.fault? with
  | some fault =>
    rw [hfault] at h
    cases h
  | none =>
    rw [hfault] at h
    cases h
    exact ⟨rfl, rfl, rfl, rfl, rfl⟩

/-! ## §1. Transitions. -/

variable {M : Type → Type} [Monad M]

/-- Store a record and announce it. -/
def persist (e : Engine) (a : Access M) (kind : State) (n : Negotiation) : M Handled := do
  match ← a.save e.handle n with
  | .error err => return .error (.store err)
  | .ok () =>
    a.announce ⟨kind, n⟩
    return .ok n

/-- Move a negotiation to a state.  Moving to the present state counts a retry. -/
def transition (e : Engine) (a : Access M) (n : Negotiation) (target : State) : M Handled := do
  match n.moveTo target (← a.now) with
  | .error err => return .error (.transition err)
  | .ok n => e.persist a target n

/-- Set the agreement of a negotiation and move it to AGREED. -/
def transitionAgreed (e : Engine) (a : Access M) (n : Negotiation) (agreement : Agreement) :
    M Handled := do
  match n.agreeOn agreement (← a.now) with
  | .error err => return .error (.transition err)
  | .ok n => e.persist a .agreed n

/-- Move a negotiation to TERMINATED, and record why if that is known. -/
def transitionTerminated (e : Engine) (a : Access M) (n : Negotiation) (detail : Option String) :
    M Handled := do
  match n.moveTo .terminated (← a.now) with
  | .error err => return .error (.transition err)
  | .ok n =>
    e.persist a .terminated (match detail with
      | some d => n.withErrorDetail d
      | none => n)

end Engine

end Parley
