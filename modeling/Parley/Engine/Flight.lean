/-
  Parley.Engine.Flight
  ────────────────────────────────
  **MESSAGES ON THEIR WAY.**

  A send has two halves.  The first (`take`) leads up to the message; while it
  is on its way anything may happen to the world.  The second (`settle`) deals
  with the reply: the record is read again, an answer moves it on, a failure
  re-enters the state, and a fatal or last failure ends the negotiation.
-/
import Parley.Engine.Duty

namespace Parley

open Parley.Retry
open Parley.Batch

/-- A message on its way: what it is, the record as it was leased, and what is sent. -/
structure Flight where
  sending : Sending
  leased : Negotiation
  message : Message
deriving DecidableEq, Repr, Inhabited

/-- How a send ends. -/
inductive Reply where
  | answered (response : Json)
  | failed (failure : DispatchFailure)
  | panicked
deriving DecidableEq, Repr, Inhabited

/-- How far a duty gets without a reply. -/
inductive Taken where
  | concluded (verdict : Verdict)
  | inFlight (flight : Flight)
deriving DecidableEq, Repr, Inhabited

/-- The verdict on an attempted transition. -/
def Handled.verdict : Handled → Verdict
  | .ok _ => .handled
  | .error _ => .failed

namespace Engine

variable {M : Type → Type} [Monad M]

/-! ## §1. Up to the send. -/

/-- Do a duty for a leased record, up to the send if there is one. -/
def take (e : Engine) (a : Access M) (duty : Duty) (n : Negotiation) : M Taken := do
  match duty with
  | .decide _ target => return .concluded (← e.transition a n target).verdict
  | .send message =>
    let now ← a.now
    match e.payloadFor message n now with
    | .error reason => return .concluded (← e.transitionTerminated a n (some reason)).verdict
    | .ok payload =>
      if e.retry.shouldDelay n now then return .concluded .unchanged
      else return .inFlight ⟨message, n, .forNegotiation n payload⟩

/-! ## §2. After the send. -/

/-- The record with the counter party's name for it, if an answer gives one. -/
def correlate (n : Negotiation) (response : Json) : Negotiation :=
  match (response.get? "provider_pid").bind Json.text? with
  | some pid => { n with correlationId := some pid }
  | none => n

/-- What an answer to a message leads to. -/
def onAnswer (e : Engine) (a : Access M) (f : Flight) (current : Negotiation) (response : Json) :
    M Handled :=
  match f.sending, f.message.payload with
  | .request, _ => e.transition a (correlate current response) .requested
  | .agreement, .contractAgreement agreement => e.transitionAgreed a current agreement
  | .termination, _ => e.transitionTerminated a current none
  | sending, _ => e.transition a current sending.target

/-- Why a negotiation ends when a message was given up. -/
def givenUp (f : Flight) (failure : DispatchFailure) : String :=
  "Failed to send " ++ f.message.typeName ++ " to counter party: " ++ failure.message

/-- What an outcome of a send leads to. -/
def onOutcome (e : Engine) (a : Access M) (f : Flight) : Outcome Json → M Verdict
  | .delayed _ => return .unchanged
  | .abandoned => return .handled
  | .succeeded current response => return (← e.onAnswer a f current response).verdict
  | .failed current _ => return (← e.transition a current f.sending.source).verdict
  | .fatal current failure =>
    return (← e.transitionTerminated a current (some failure.message)).verdict
  | .exhausted current failure =>
    return (← e.transitionTerminated a current (some (givenUp f failure))).verdict

/-- Deal with the reply to a message. -/
def settle (e : Engine) (a : Access M) (f : Flight) : Reply → M Verdict
  | .panicked => return .panicked
  | .answered response => do
    e.onOutcome a f (e.retry.classify (← a.find f.leased.id) (.ok response))
  | .failed failure => do
    e.onOutcome a f (e.retry.classify (← a.find f.leased.id) (.error failure))

end Engine

end Parley
