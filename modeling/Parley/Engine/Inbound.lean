/-
  Parley.Engine.Inbound
  ────────────────────────────────
  **REQUESTS AND MESSAGES FROM OUTSIDE.**

  The local application starts and ends negotiations; the counter party sends
  messages about them.  A message is checked first: its payload, the record it
  names, the record's role, the edge of the graph.  If all is well the record is
  leased, no longer pending, and makes the transition; otherwise the lease is
  given back and nothing else changes.
-/
import Parley.Engine.Basic

namespace Parley

namespace Engine

variable {M : Type → Type} [Monad M]

/-! ## §1. The named record. -/

/-- Lease the record of an id. -/
def leaseById (e : Engine) (a : Access M) (id : String) : M Handled := do
  match ← a.findAndLease e.handle id with
  | .ok n => return .ok n
  | .error (.notFound id) => return .error (.notFound id)
  | .error err => return .error (.store err)

/-- Refuse an operation on a leased record and give the lease back. -/
def refuse (e : Engine) (a : Access M) (n : Negotiation) (error : NegotiationError) :
    M Handled := do
  a.release e.handle n.id
  return .error error

/-- Lease the record that a message names for a role, and go on with it if it has that role and may
move to a state. -/
def acquire (e : Engine) (a : Access M) (m : Message) (role : Role) (target : State)
    (goOn : Negotiation → M Handled) : M Handled := do
  match m.processIdFor role with
  | none => return .error (.noProcessId m.typeName role)
  | some id =>
    match ← e.leaseById a id with
    | .error err => return .error err
    | .ok n =>
      if n.role ≠ role then e.refuse a n (.unexpectedRole n.id role n.role)
      else
        match n.checkEdge target with
        | .error err => e.refuse a n (.transition err)
        | .ok () => goOn (n.withPending false)

/-- Refuse a message with another payload than expected. -/
def unexpected (expected : String) (m : Message) : M Handled :=
  return .error (.unexpectedPayload expected m.typeName)

/-! ## §2. The local application. -/

/-- Start a negotiation as consumer, in INITIAL. -/
def initiate (e : Engine) (a : Access M) (r : ContractRequest) : M Handled := do
  let id ← a.drawId
  let n := Negotiation.new id .consumer r.counterPartyId r.counterPartyAddress r.protocol (← a.now)
  e.persist a .initial (n.addOffer r.offer)

/-- Decide to end a negotiation; the counter party is told later. -/
def terminate (e : Engine) (a : Access M) (id reason : String) : M Handled := do
  match ← e.leaseById a id with
  | .error err => return .error err
  | .ok n =>
    match n.checkEdge .terminating with
    | .error err => e.refuse a n (.transition err)
    | .ok () => e.transition a ((n.withPending false).withErrorDetail reason) .terminating

/-! ## §3. Messages to the provider. -/

/-- The negotiation of a consumer's request that came before. -/
def knownRequest? (consumerPid : String) (l : Ledger) : Option Negotiation :=
  match l.findForCorrelationId? consumerPid with
  | some n => if n.role = .provider then some n else none
  | none => none

/-- A consumer's request: a new negotiation in REQUESTED, or the one that the same request made
before. -/
def notifyRequested (e : Engine) (a : Access M) (m : Message) : M Handled := do
  match m.payload with
  | .contractRequest offer callbackAddress consumerId =>
    match ← a.read (knownRequest? m.consumerPid) with
    | some n => return .ok n
    | none =>
      let id ← a.drawId
      let n := { Negotiation.new id .provider consumerId callbackAddress m.protocol (← a.now) with
        correlationId := some m.consumerPid }
      e.transition a (n.addOffer offer) .requested
  | _ => unexpected "ContractRequestMessage" m

/-- The consumer accepted the last offer. -/
def notifyAccepted (e : Engine) (a : Access M) (m : Message) : M Handled :=
  match m.payload with
  | .negotiationEvent .accepted =>
    e.acquire a m .provider .accepted fun n => e.transition a n .accepted
  | _ => unexpected "ContractNegotiationEventMessage" m

/-- The consumer verified the agreement. -/
def notifyVerified (e : Engine) (a : Access M) (m : Message) : M Handled :=
  match m.payload with
  | .agreementVerification =>
    e.acquire a m .provider .verified fun n => e.transition a n .verified
  | _ => unexpected "ContractAgreementVerificationMessage" m

/-! ## §4. Messages to the consumer. -/

/-- The provider's offer.  It also tells the provider's name for the negotiation, unless that is
known. -/
def notifyOffered (e : Engine) (a : Access M) (m : Message) : M Handled :=
  match m.payload with
  | .contractOffer offer =>
    e.acquire a m .consumer .offered fun n =>
      let n := n.addOffer offer
      e.transition a { n with correlationId := n.correlationId.or m.providerPid } .offered
  | _ => unexpected "ContractOfferMessage" m

/-- The provider's agreement, which can be set once. -/
def notifyAgreed (e : Engine) (a : Access M) (m : Message) : M Handled :=
  match m.payload with
  | .contractAgreement agreement =>
    e.acquire a m .consumer .agreed fun n =>
      if n.agreement.isSome then e.refuse a n (.transition (.agreementAlreadySet n.id))
      else e.transitionAgreed a n agreement
  | _ => unexpected "ContractAgreementMessage" m

/-- The provider finalized the negotiation. -/
def notifyFinalized (e : Engine) (a : Access M) (m : Message) : M Handled :=
  match m.payload with
  | .negotiationEvent .finalized =>
    e.acquire a m .consumer .finalized fun n => e.transition a n .finalized
  | _ => unexpected "ContractNegotiationEventMessage" m

/-! ## §5. Messages to either. -/

/-- Whether the record that a message names for a role has that role. -/
def isHeldAs (a : Access M) (m : Message) (role : Role) : M Bool := do
  match m.processIdFor role with
  | none => return false
  | some id =>
    match ← a.find id with
    | some n => return n.role = role
    | none => return false

/-- The role in which this participant is addressed by a message. -/
def receivingRole? (a : Access M) (m : Message) : M (Option Role) := do
  if ← isHeldAs a m .provider then return some .provider
  else if ← isHeldAs a m .consumer then return some .consumer
  else return none

/-- The counter party terminated the negotiation. -/
def notifyTerminated (e : Engine) (a : Access M) (m : Message) : M Handled := do
  match m.payload with
  | .termination reason _ =>
    match ← receivingRole? a m with
    | none => return .error (.notFound m.consumerPid)
    | some role => e.acquire a m role .terminated fun n => e.transitionTerminated a n reason
  | _ => unexpected "ContractNegotiationTerminationMessage" m

/-- Hand a message to the operation for its payload. -/
def receive (e : Engine) (a : Access M) (m : Message) : M Handled :=
  match m.payload with
  | .contractRequest .. => e.notifyRequested a m
  | .contractOffer _ => e.notifyOffered a m
  | .negotiationEvent .accepted => e.notifyAccepted a m
  | .negotiationEvent .finalized => e.notifyFinalized a m
  | .contractAgreement _ => e.notifyAgreed a m
  | .agreementVerification => e.notifyVerified a m
  | .termination .. => e.notifyTerminated a m

end Engine

end Parley
