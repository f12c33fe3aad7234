/-
  Parley.Engine.Tick
  ────────────────────────────────
  **ONE ROUND OF WORK.**

  A tick of a role looks after its duties one by one: it leases a batch of the
  negotiations in the duty's state and handles each.  Handling a record has one
  point at which the engine waits for others, the send:

      begin   up to the message, or to the end if there is none to send
      send    the message is on its way
      land    from the reply to the end

  How the world is reached, how a message is sent and how the records of a batch
  are handled side by side is left open (`Conduct`); the tick is the same for
  all of these.
-/
import Parley.Engine.Flight

namespace Parley

open Parley.Batch

/-! ## §1. One record. -/

/-- How far the handling of a record gets without a reply. -/
inductive Begun where
  | done (handled : Bool)
  | sending (flight : Flight)
deriving DecidableEq, Repr, Inhabited

namespace Engine

variable {M : Type → Type} [Monad M]

/-- Handle a leased record up to the message that is to be sent.  A record that the guard holds back
is stored as pending. -/
def begin (e : Engine) (a : Access M) (role : Role) (duty : Duty) (n : Negotiation) :
    M Begun := do
  if e.guard n then
    (e.job role duty).park a n
    return .done false
  else
    match ← e.take a duty n with
    | .inFlight flight => return .sending flight
    | .concluded verdict => return .done (← (e.job role duty).conclude a n verdict)

/-- Handle the record of a message from the reply on: whether it counts as handled. -/
def land (e : Engine) (a : Access M) (role : Role) (flight : Flight) (reply : Reply) :
    M Bool := do
  let verdict ← e.settle a flight reply
  (e.job role (.send flight.sending)).conclude a flight.leased verdict

end Engine

/-! ## §2. All of them. -/

/-- What a tick is carried out with: access to the world, the sending of a message, and the handling
of several records of which so many at most are open at a time. -/
structure Conduct (M : Type → Type) extends Access M where
  send : Flight → M Reply
  gather : Nat → Gather M

namespace Engine

variable {M : Type → Type} [Monad M]

/-- Handle a leased record. -/
def handleRecord (e : Engine) (c : Conduct M) (role : Role) (duty : Duty) (n : Negotiation) :
    M Bool := do
  match ← e.begin c.toAccess role duty n with
  | .done handled => return handled
  | .sending flight =>
    let reply ← c.send flight
    e.land c.toAccess role flight reply

/-- Look after a duty: lease a batch and handle it. -/
def lookAfter (e : Engine) (c : Conduct M) (role : Role) (duty : Duty) : M Nat := do
  let leased ← (e.job role duty).lease c.toAccess
  c.gather e.maxConcurrent (leased.map (e.handleRecord c role duty))

/-- Look after duties in order, and count the records handled. -/
def lookAfterAll (e : Engine) (c : Conduct M) (role : Role) : List Duty → M Nat
  | [] => return 0
  | duty :: rest => do
    let count ← e.lookAfter c role duty
    let others ← e.lookAfterAll c role rest
    return count + others

/-- A tick of a role: the number of records handled. -/
def runRole (e : Engine) (c : Conduct M) (role : Role) : M Nat :=
  e.lookAfterAll c role role.duties

/-- A tick of either role, the consumer's first. -/
def runOnce (e : Engine) (c : Conduct M) : M Nat := do
  let consumer ← e.runRole c .consumer
  let provider ← e.runRole c .provider
  return consumer + provider

end Engine

/-! ## §3. One after the other. -/

/-- What the sending of a message does to the world, up to the reply. -/
abbrev Dispatch := Flight → StateM World Reply

/-- The conduct of an engine that handles the records of a batch one after the other, with nothing
in between but what the sending of a message does. -/
def Conduct.oneByOne (send : Dispatch) : Conduct (StateM World) where
  toAccess := .direct
  send := send
  gather _ := inOrder

end Parley
