/-
  Parley.Engine.Loopback
  ────────────────────────────────
  **ANSWERING A PEER DIRECTLY.**

  Two engines can talk to each other without a network: a message is handed to
  the peer, and what the peer makes of it is the reply.  The answer to a
  contract request tells the provider's name for the negotiation.  A refusal is
  final, unless the peer was only busy with the record.
-/
import Parley.Engine.Inbound
import Parley.Engine.Flight

namespace Parley

/-- The answer to a message that was accepted, given the receiver's negotiation. -/
def Payload.acknowledgement (p : Payload) (n : Negotiation) : Json :=
  match p with
  | .contractRequest .. => .object [("provider_pid", .text n.id)]
  | _ => .object []

/-- The failure that a refusal amounts to for the sender. -/
def NegotiationError.asFailure (e : NegotiationError) : DispatchFailure :=
  match e with
  | .store (.leaseConflict ..) => ⟨.retryable, e.message⟩
  | _ => ⟨.fatal, e.message⟩

/-- Hand a message to an engine, and what it replies. -/
def Engine.answer {M : Type → Type} [Monad M] (e : Engine) (a : Access M) (m : Message) :
    M Reply := do
  match ← e.receive a m with
  | .ok n => return .answered (m.payload.acknowledgement n)
  | .error err => return .failed err.asFailure

end Parley
