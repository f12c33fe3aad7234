/-
  Parley.Listener.Announcement
  ────────────────────────────────
  **ANNOUNCEMENTS.**

  Each transition that was stored is announced, with the record as it became.
  An announcement is of the kind of the state that was entered; entering INITIAL
  is announced as "initiated".
-/
import Parley.Negotiation.Basic

namespace Parley

/-- The name of an announcement of entering a state. -/
def State.eventName : State → String
  | initial => "Initiated"
  | requesting => "Requesting"
  | requested => "Requested"
  | offering => "Offering"
  | offered => "Offered"
  | accepting => "Accepting"
  | accepted => "Accepted"
  | agreeing => "Agreeing"
  | agreed => "Agreed"
  | verifying => "Verifying"
  | verified => "Verified"
  | finalizing => "Finalizing"
  | finalized => "Finalized"
  | terminating => "Terminating"
  | terminated => "Terminated"

/-- The name of the callback that such an announcement is delivered to. -/
def State.callbackName (s : State) : String :=
  s.eventName.toLower

/-- A stored transition: the kind of the announcement and the record as it became. -/
structure Announcement where
  kind : State
  negotiation : Negotiation
deriving DecidableEq, Repr

end Parley
