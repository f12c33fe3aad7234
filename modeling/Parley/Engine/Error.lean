/-
  Parley.Engine.Error
  ────────────────────────────────
  **WHY A PARTICIPANT REFUSES.**

  An operation is refused because the store or the protocol graph refuses it,
  because it is addressed to nobody, or because the message is not what the
  operation takes.
-/
import Parley.Store.Basic
import Parley.Negotiation.Message
import Parley.Settings.Basic

namespace Parley

/-- Why a participant refuses an operation. -/
inductive NegotiationError where
  | store (error : StoreError)
  | transition (error : TransitionError)
  /-- No negotiation has the id that was given, or that a message names. -/
  | notFound (id : String)
  /-- The negotiation that a message names belongs to the other role. -/
  | unexpectedRole (id : String) (expected actual : Role)
  /-- A message of one type was given where another is taken. -/
  | unexpectedPayload (expected actual : String)
  /-- A message does not name a negotiation of the receiving role. -/
  | noProcessId (typeName : String) (role : Role)
  | settings (error : SettingsError)
deriving DecidableEq, Repr

/-- The text of a refusal. -/
def NegotiationError.message : NegotiationError → String
  | .store error => "Store error: " ++ error.message
  | .transition error => "Transition error: " ++ error.message
  | .notFound id => "Negotiation not found: " ++ id
  | .unexpectedRole id expected actual =>
    "Negotiation " ++ id ++ " is a " ++ actual.tag ++ " negotiation, expected " ++ expected.tag
  | .unexpectedPayload expected actual =>
    "Invalid message: expected " ++ expected ++ ", got " ++ actual
  | .noProcessId typeName role =>
    "Invalid message: " ++ typeName ++ " carries no process id for the " ++ role.tag
  | .settings error => "Configuration error: " ++ error.message

end Parley
