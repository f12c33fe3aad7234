/-
  Parley.World
  ────────────────────────────────
  **WHAT THE OPERATIONS OF A PARTICIPANT ACT ON.**

  The records of its store, the clock, the supply of ids for new negotiations,
  and the announcements made so far.  How an operation gets at these is set out
  in `Parley.Access`.
-/
import Parley.Ids
import Parley.Store.Basic
import Parley.Listener.Announcement

namespace Parley

/-- The store's records, the time, the supply of ids and the announcements made, oldest first. -/
structure World where
  ledger : Ledger
  now : Instant
  supply : IdSupply := .counted
  announced : List Announcement := []
deriving Inhabited

namespace World

/-- Move the clock, forward or back. -/
def advance (w : World) (ms : Int) : World :=
  { w with now := w.now.addMillis ms }

/-- Draw an id for a new negotiation. -/
def drawId (w : World) : String × World :=
  (w.supply.next, { w with supply := w.supply.draw })

/-- Announce a transition. -/
def announce (w : World) (news : Announcement) : World :=
  { w with announced := w.announced ++ [news] }

end World

end Parley
