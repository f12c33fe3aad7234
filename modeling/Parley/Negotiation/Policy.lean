/-
  Parley.Negotiation.Policy
  ────────────────────────────────
  **OFFERS, AGREEMENTS AND POLICIES.**

  A policy states the terms of use of an asset.  Its rules are data values that
  are carried as they are; judging them is not the negotiator's business.
-/
import Parley.Time.Instant
import Parley.Json.Basic

namespace Parley

/-- Terms of use. -/
structure Policy where
  uid : Option String := none
  permissions : List Json := []
  prohibitions : List Json := []
  obligations : List Json := []
  target : Option String := none
  assigner : Option String := none
  assignee : Option String := none
deriving DecidableEq, Repr, Inhabited

/-- What one party proposes. -/
structure Offer where
  id : String
  assetId : String
  providerId : String
  policy : Policy
deriving DecidableEq, Repr, Inhabited

/-- The agreed contract. -/
structure Agreement where
  id : String
  providerId : String
  consumerId : String
  assetId : String
  policy : Policy
  signingDate : Instant
deriving DecidableEq, Repr, Inhabited

end Parley
