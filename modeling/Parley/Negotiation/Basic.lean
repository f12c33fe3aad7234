/-
  Parley.Negotiation.Basic
  ────────────────────────────────
  **NEGOTIATIONS.**

  A negotiation is a durable record of what this participant and one counter
  party have said to each other.  The book keeping that every such record
  needs is its `Lifecycle`: state, retries, pending flag, lease, times.

  A change of state (`Negotiation.moveTo`) is refused unless the protocol graph
  has the edge, and a refused change leaves the record as it is.  The agreement
  is set once, together with the move to AGREED (`Negotiation.agreeOn`).
-/
import Parley.Negotiation.State
import Parley.Negotiation.Lease
import Parley.Negotiation.Policy

namespace Parley

/-! ## §1. Book keeping. -/

/-- What every leased record carries.  `stateCount` counts how often the present state was
re-entered; `stateTimestamp` never goes back. -/
structure Lifecycle where
  id : String
  state : Int
  stateCount : Nat := 0
  stateTimestamp : Instant
  pending : Bool := false
  errorDetail : Option String := none
  lease : Option Lease := none
  createdAt : Instant
  updatedAt : Instant
  traceContext : Dictionary String := .empty
deriving DecidableEq, Repr, Inhabited

namespace Lifecycle

/-- A new record in a state. -/
def new (id : String) (state : Int) (now : Instant) : Lifecycle where
  id := id
  state := state
  stateTimestamp := now
  createdAt := now
  updatedAt := now

/-- The largest count for which there is room.  What becomes of a larger one is left to how the program
was built. -/
def maxCount : Nat := 4294967295

/-- Enter a state, whether or not the graph has the edge.  Entering the present state counts. -/
def enter (c : Lifecycle) (state : Int) (now : Instant) : Lifecycle :=
  { c with
    state := state
    stateCount := if c.state = state then c.stateCount + 1 else 0
    stateTimestamp := c.stateTimestamp.later now
    updatedAt := now }

/-- The value of a field under its query path. -/
def field? (c : Lifecycle) : String → Option Json
  | "id" => some (.text c.id)
  | "state" => some (.int c.state)
  | "state_count" => some (.int c.stateCount)
  | "state_timestamp" => some (.int c.stateTimestamp.millis)
  | "pending" => some (.bool c.pending)
  | "error_detail" => some (Json.ofOption .text c.errorDetail)
  | "created_at" => some (.int c.createdAt.millis)
  | "updated_at" => some (.int c.updatedAt.millis)
  | _ => none

end Lifecycle

/-! ## §2. Negotiations. -/

/-- A negotiation.  The offers are those exchanged so far, oldest first; the correlation id is the
counter party's name for the negotiation, once known. -/
structure Negotiation extends Lifecycle where
  role : Role
  correlationId : Option String := none
  counterPartyId : String
  counterPartyAddress : String
  protocol : String
  offers : List Offer := []
  agreement : Option Agreement := none
deriving DecidableEq, Repr, Inhabited

/-- Why a change of state is refused. -/
inductive TransitionError where
  /-- The protocol graph does not have the edge. -/
  | illegal (id : String) (source target : State)
  /-- The negotiation has its agreement already. -/
  | agreementAlreadySet (id : String)
  /-- No state has the stored code. -/
  | unknownState (code : Int)
deriving DecidableEq, Repr

/-- The text of a refusal. -/
def TransitionError.message : TransitionError → String
  | .illegal id source target =>
    "illegal transition for " ++ id ++ ": " ++ source.name ++ " -> " ++ target.name
  | .agreementAlreadySet id => "contract agreement already set on " ++ id
  | .unknownState code => "unknown state code " ++ toString code

namespace Negotiation

/-- A new negotiation in INITIAL. -/
def new (id : String) (role : Role) (counterPartyId counterPartyAddress protocol : String)
    (now : Instant) : Negotiation where
  toLifecycle := .new id State.initial.code now
  role := role
  counterPartyId := counterPartyId
  counterPartyAddress := counterPartyAddress
  protocol := protocol

/-- The protocol state, unless the stored code is unknown. -/
def protocolState (n : Negotiation) : Except TransitionError State :=
  match State.ofCode? n.state with
  | some s => .ok s
  | none => .error (.unknownState n.state)

/-- The offer made last. -/
def lastOffer? (n : Negotiation) : Option Offer :=
  n.offers.getLast?

/-- The negotiation with one more offer. -/
def addOffer (n : Negotiation) (offer : Offer) : Negotiation :=
  { n with offers := n.offers ++ [offer] }

/-- The negotiation with another lease, or none. -/
def withLease (n : Negotiation) (lease : Option Lease) : Negotiation :=
  { n with lease := lease }

/-- The negotiation with its pending flag set or cleared. -/
def withPending (n : Negotiation) (pending : Bool) : Negotiation :=
  { n with pending := pending }

/-- The negotiation with an error detail. -/
def withErrorDetail (n : Negotiation) (detail : String) : Negotiation :=
  { n with errorDetail := some detail }

/-- The negotiation in a state, whether or not the graph has the edge. -/
def enter (n : Negotiation) (state : Int) (now : Instant) : Negotiation :=
  { n with toLifecycle := n.toLifecycle.enter state now }

/-! ## §3. Moves. -/

/-- Whether the graph has the edge from the present state: the refusal if it does not. -/
def checkEdge (n : Negotiation) (target : State) : Except TransitionError Unit :=
  match n.protocolState with
  | .error e => .error e
  | .ok source => if source.canMoveTo target then .ok () else .error (.illegal n.id source target)

/-- Move along an edge of the graph. -/
def moveTo (n : Negotiation) (target : State) (now : Instant) :
    Except TransitionError Negotiation :=
  match n.checkEdge target with
  | .error e => .error e
  | .ok () => .ok (n.enter target.code now)

/-- Set the agreement and move to AGREED, both or neither. -/
def agreeOn (n : Negotiation) (agreement : Agreement) (now : Instant) :
    Except TransitionError Negotiation :=
  if n.agreement.isSome then .error (.agreementAlreadySet n.id)
  else
    match n.moveTo .agreed now with
    | .error e => .error e
    | .ok moved => .ok { moved with agreement := some agreement }

/-! ## §4. Queryable fields. -/

/-- The query paths of a negotiation. -/
def fieldPaths : List String :=
  ["id", "state", "state_count", "state_timestamp", "pending", "error_detail", "created_at",
   "updated_at", "type", "correlation_id", "counter_party_id", "counter_party_address",
   "protocol", "contract_agreement.id", "contract_agreement.asset_id"]

/-- The value of a field under its query path. -/
def field? (n : Negotiation) : String → Option Json
  | "type" => some (.text n.role.tag)
  | "correlation_id" => some (Json.ofOption .text n.correlationId)
  | "counter_party_id" => some (.text n.counterPartyId)
  | "counter_party_address" => some (.text n.counterPartyAddress)
  | "protocol" => some (.text n.protocol)
  | "contract_agreement.id" => some (Json.ofOption .text (n.agreement.map (·.id)))
  | "contract_agreement.asset_id" => some (Json.ofOption .text (n.agreement.map (·.assetId)))
  | path => n.toLifecycle.field? path

/-! ## §5. What a move does. -/

/-- A move succeeds exactly along the edges of the graph, and then enters the target. -/
theorem moveTo_eq_ok_iff {n m : Negotiation} {target : State} {now : Instant} :
    n.moveTo target now = .ok m
      ↔ ∃ source, State.ofCode? n.state = some source ∧ source.canMoveTo target = true
        ∧ m = n.enter target.code now := by
  unfold moveTo checkEdge protocolState
  cases h : State.ofCode? n.state with
  | none => simp
  | some s =>
    by_cases hs : s.canMoveTo target = true
    · simpa [hs] using eq_comm
    · simp [hs]

end Negotiation

end Parley
