/-
  Parley.Engine.Duty
  ────────────────────────────────
  **WHAT A STATE CALLS FOR.**

  In some states it is this participant's turn.  Then either a decision is taken
  at once, or a message is due to the counter party: in a state in "-ing" the
  message is sent, and the state in "-ed" is entered when it has been answered.

      consumer   INITIAL, REQUESTING, OFFERED, ACCEPTING, AGREED, VERIFYING, TERMINATING
      provider   REQUESTED, OFFERING, ACCEPTED, AGREEING, VERIFIED, FINALIZING, TERMINATING
-/
import Parley.Engine.Basic
import Parley.Batch.Job

namespace Parley

open Parley.Query
open Parley.Batch

/-! ## §1. Messages that are due. -/

/-- A message that a state calls for. -/
inductive Sending where
  | request
  | acceptance
  | verification
  | offer
  | agreement
  | finalization
  | termination
deriving DecidableEq, Repr, Inhabited

namespace Sending

/-- The state in which a message is due. -/
def source : Sending → State
  | request => .requesting
  | acceptance => .accepting
  | verification => .verifying
  | offer => .offering
  | agreement => .agreeing
  | finalization => .finalizing
  | termination => .terminating

/-- The state that is entered when the message has been answered. -/
def target : Sending → State
  | request => .requested
  | acceptance => .accepted
  | verification => .verified
  | offer => .offered
  | agreement => .agreed
  | finalization => .finalized
  | termination => .terminated

end Sending

/-! ## §2. Duties. -/

/-- What is to be done in a state. -/
inductive Duty where
  | decide (source target : State)
  | send (message : Sending)
deriving DecidableEq, Repr, Inhabited

/-- The state that a duty belongs to. -/
def Duty.state : Duty → State
  | decide source _ => source
  | send message => message.source

/-- The duties of a role, in the order in which they are looked after. -/
def Role.duties : Role → List Duty
  | consumer =>
    [.decide .initial .requesting, .send .request, .decide .offered .accepting, .send .acceptance,
     .decide .agreed .verifying, .send .verification, .send .termination]
  | provider =>
    [.decide .requested .offering, .send .offer, .decide .accepted .agreeing, .send .agreement,
     .decide .verified .finalizing, .send .finalization, .send .termination]

/-- Every duty follows an edge of the graph, and no state has two duties of one role. -/
example : (Role.consumer.duties ++ Role.provider.duties).all (fun
      | .decide source target => source.canMoveTo target
      | .send message => message.source.canMoveTo message.target) = true
    ∧ (Role.consumer.duties.map Duty.state).Nodup
    ∧ (Role.provider.duties.map Duty.state).Nodup := by decide

namespace Engine

/-- The job of working off one duty of a role. -/
def job (e : Engine) (role : Role) (duty : Duty) : Job where
  description := role.name ++ ":" ++ duty.state.name
  handle := e.handle
  criteria := [.hasState duty.state.code, .isNotPending, .hasRole role]
  batchSize := e.batchSize
  guard := e.guard

/-! ## §3. Payloads. -/

/-- The agreement on the terms of an offer.  Its id follows from the negotiation's, so that every
retry sends the same one. -/
def agreementOn (e : Engine) (n : Negotiation) (offer : Offer) (now : Instant) : Agreement where
  id := "agreement-" ++ n.id
  providerId := e.participantId
  consumerId := n.counterPartyId
  assetId := offer.assetId
  policy := offer.policy
  signingDate := now

/-- The payload of a message that is due.  A message about an offer needs one: if there is none, the
result is the reason why the negotiation ends. -/
def payloadFor (e : Engine) (message : Sending) (n : Negotiation) (now : Instant) :
    Except String Payload :=
  match message with
  | .request =>
    match n.lastOffer? with
    | some offer => .ok (.contractRequest offer e.callbackAddress e.participantId)
    | none => .error "No contract offer to request"
  | .offer =>
    match n.lastOffer? with
    | some offer => .ok (.contractOffer offer)
    | none => .error "No contract offer to send"
  | .agreement =>
    match n.lastOffer? with
    | some offer => .ok (.contractAgreement (e.agreementOn n offer now))
    | none => .error "No contract offer to agree on"
  | .acceptance => .ok (.negotiationEvent .accepted)
  | .finalization => .ok (.negotiationEvent .finalized)
  | .verification => .ok .agreementVerification
  | .termination => .ok (.termination n.errorDetail (n.lastOffer?.map (·.policy)))

end Engine

end Parley
