/-
  Parley.Negotiation.Message
  ────────────────────────────────
  **PROTOCOL MESSAGES.**

  A message is addressed to the counter party of one negotiation.  It carries
  the names that the two parties have for it: the consumer's, and the provider's
  once it is known, that is, from the provider's answer to the first request on.
-/
import Parley.Negotiation.Basic

namespace Parley

/-! ## §1. Payloads. -/

/-- What a negotiation event reports. -/
inductive Milestone where
  | accepted
  | finalized
deriving DecidableEq, Repr, Inhabited

/-- The body of a message. -/
inductive Payload where
  | contractRequest (offer : Offer) (callbackAddress consumerId : String)
  | contractOffer (offer : Offer)
  | negotiationEvent (event : Milestone)
  | contractAgreement (agreement : Agreement)
  | agreementVerification
  | termination (reason : Option String) (policy : Option Policy)
deriving DecidableEq, Repr, Inhabited

/-- The name of a payload's message type. -/
def Payload.typeName : Payload → String
  | .contractRequest .. => "ContractRequestMessage"
  | .contractOffer _ => "ContractOfferMessage"
  | .negotiationEvent _ => "ContractNegotiationEventMessage"
  | .contractAgreement _ => "ContractAgreementMessage"
  | .agreementVerification => "ContractAgreementVerificationMessage"
  | .termination .. => "ContractNegotiationTerminationMessage"

/-! ## §2. Messages. -/

/-- A message to the counter party of a negotiation. -/
structure Message where
  protocol : String
  counterPartyAddress : String
  consumerPid : String
  providerPid : Option String
  payload : Payload
deriving DecidableEq, Repr, Inhabited

namespace Message

/-- The message that brings a payload to the counter party of a negotiation. -/
def forNegotiation (n : Negotiation) (payload : Payload) : Message where
  protocol := n.protocol
  counterPartyAddress := n.counterPartyAddress
  consumerPid := match n.role with
    | .consumer => n.id
    | .provider => n.correlationId.getD ""
  providerPid := match n.role with
    | .consumer => n.correlationId
    | .provider => some n.id
  payload := payload

/-- The name of the message's type. -/
def typeName (m : Message) : String :=
  m.payload.typeName

/-- The receiver's own name for the negotiation, if the message carries it. -/
def processIdFor (m : Message) : Role → Option String
  | .consumer => some m.consumerPid
  | .provider => m.providerPid

/-- The sender's name for the negotiation, seen from the receiver. -/
def correlationIdFor (m : Message) : Role → Option String
  | .consumer => m.providerPid
  | .provider => some m.consumerPid

end Message

/-- A message as it is stored or sent, with an id of its own. -/
structure Envelope extends Message where
  id : String
deriving DecidableEq, Repr, Inhabited

/-! ## §3. Local requests. -/

/-- The local wish to negotiate for an offer. -/
structure ContractRequest where
  counterPartyId : String
  counterPartyAddress : String
  protocol : String
  offer : Offer
deriving DecidableEq, Repr, Inhabited

/-! ## §4. Failed sends. -/

/-- Whether a failed send may be tried again. -/
inductive FailureKind where
  | retryable
  | fatal
deriving DecidableEq, Repr, Inhabited

/-- The word for a kind of failure. -/
def FailureKind.name : FailureKind → String
  | retryable => "retryable"
  | fatal => "fatal"

/-- A failed send. -/
structure DispatchFailure where
  kind : FailureKind
  message : String
deriving DecidableEq, Repr, Inhabited

/-- The text of a failed send. -/
def DispatchFailure.text (f : DispatchFailure) : String :=
  f.kind.name ++ " failure: " ++ f.message

/-- Whether a failed send is not to be tried again. -/
def DispatchFailure.isFatal (f : DispatchFailure) : Bool :=
  f.kind = .fatal

end Parley
