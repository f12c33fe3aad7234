/-
  Parley.Store.Basic
  ────────────────────────────────
  **A STORE WITH LEASES.**

  Workers share a ledger.  Each works through a handle in its own name, and may
  change a record unless another worker's lease on it is live.  Saving ends the
  worker's own lease; taking work (`nextNotLeased`) leases the oldest records
  that are free and meet the criteria.
-/
import Parley.Store.Ledger

namespace Parley

open Parley.Query

/-! ## §1. Handles and refusals. -/

/-- In whose name a worker uses the store, and how long its leases last, in milliseconds. -/
structure Handle where
  holder : String
  duration : Int
deriving DecidableEq, Repr, Inhabited

/-- A handle in another name. -/
def Handle.withHolder (h : Handle) (holder : String) : Handle :=
  { h with holder := holder }

/-- Why the store refuses an operation. -/
inductive StoreError where
  | notFound (id : String)
  /-- Another worker's lease is live. -/
  | leaseConflict (id holder : String)
  | invalidQuery (error : QueryError)
deriving DecidableEq, Repr

/-- The text of a refusal. -/
def StoreError.message : StoreError → String
  | .notFound id => "Not found: " ++ id
  | .leaseConflict id holder => "Lease conflict: " ++ id ++ " is leased by " ++ holder
  | .invalidQuery error => "Invalid query: " ++ error.message

namespace Handle

/-- The lease that a handle takes at an instant. -/
def leaseAt (h : Handle) (now : Instant) : Lease :=
  ⟨h.holder, now, h.duration⟩

/-- The refusal if another worker's lease on a record is live. -/
def checkLease (h : Handle) (now : Instant) (n : Negotiation) : Except StoreError Unit :=
  match n.lease with
  | some l => if l.shieldsFrom h.holder now then .error (.leaseConflict n.id l.holder) else .ok ()
  | none => .ok ()

end Handle

namespace Ledger

/-- Whether the lease on the record of an id, if there is one, has an end. -/
def leaseEnds (l : Ledger) (id : String) : Bool :=
  (l.find? id).all fun n => n.lease.all (·.hasEnd)

/-- Whether every lease has an end. -/
def leasesEnd (l : Ledger) : Bool :=
  l.entries.all fun n => n.lease.all (·.hasEnd)

/-! ## §2. Single records. -/

/-- Write a record and end the lease on it. -/
def save (l : Ledger) (h : Handle) (now : Instant) (n : Negotiation) : Except StoreError Ledger :=
  match l.find? n.id with
  | none => .ok (l.put (n.withLease none))
  | some stored =>
    match h.checkLease now stored with
    | .error e => .error e
    | .ok () => .ok (l.put (n.withLease none))

/-- Lease the record of an id and give it. -/
def findAndLease (l : Ledger) (h : Handle) (now : Instant) (id : String) :
    Except StoreError (Negotiation × Ledger) :=
  match l.find? id with
  | none => .error (.notFound id)
  | some stored =>
    match h.checkLease now stored with
    | .error e => .error e
    | .ok () => .ok (stored.withLease (some (h.leaseAt now)), l.setLease id (some (h.leaseAt now)))

/-- End the lease on the record of an id. -/
def breakLease (l : Ledger) (h : Handle) (now : Instant) (id : String) : Except StoreError Ledger :=
  match l.find? id with
  | none => .error (.notFound id)
  | some stored =>
    match h.checkLease now stored with
    | .error e => .error e
    | .ok () => .ok (l.setLease id none)

/-! ## §3. Work. -/

/-- Whether any worker may take a record: it has no lease, or one that has ended. -/
def isFree (now : Instant) (n : Negotiation) : Bool :=
  match n.lease with
  | some l => l.isExpired now
  | none => true

/-- Whether a record waits longer than another, the lesser id first if both wait equally long. -/
def waitsLonger (a b : Negotiation) : Bool :=
  a.stateTimestamp < b.stateTimestamp
    || (!decide (b.stateTimestamp < a.stateTimestamp) && decide (a.id < b.id))

/-- The free records that meet some criteria, those that wait longest first. -/
def candidates (l : Ledger) (now : Instant) (criteria : List Criterion) :
    Except QueryError (List Negotiation) :=
  match filterAll (fun n => matchesAll n criteria) (l.entries.filter (isFree now)) with
  | .error e => .error e
  | .ok found => .ok (stableSort waitsLonger found)

/-- Lease up to a number of free records that meet some criteria, and give them. -/
def nextNotLeased (l : Ledger) (h : Handle) (now : Instant) (max : Nat)
    (criteria : List Criterion) : Except StoreError (List Negotiation × Ledger) :=
  match validate criteria with
  | .error e => .error (.invalidQuery e)
  | .ok () =>
    match l.candidates now criteria with
    | .error e => .error (.invalidQuery e)
    | .ok found =>
      let chosen := found.take max
      .ok (chosen.map (·.withLease (some (h.leaseAt now))),
        l.leaseEach (chosen.map (·.id)) (h.leaseAt now))

/-! ## §4. Lookups. -/

/-- The negotiation that the counter party knows by a name. -/
def findForCorrelationId? (l : Ledger) (correlationId : String) : Option Negotiation :=
  l.entries.find? (·.correlationId = some correlationId)

/-- The agreement of an id. -/
def findAgreement? (l : Ledger) (agreementId : String) : Option Agreement :=
  (l.entries.filterMap (·.agreement)).find? (·.id = agreementId)

/-- The answer to a query; none if the sort breaks down. -/
def query (l : Ledger) (spec : QuerySpec) : Except StoreError (Option (List Negotiation)) :=
  match resolve l.entries spec with
  | .error e => .error (.invalidQuery e)
  | .ok answer => .ok answer

/-! ## §5. The archive. -/

/-- The query for the negotiation that concluded an agreement. -/
def concludedSpec (agreementId : String) : QuerySpec where
  filter := [⟨"contract_agreement.id", .eq, .text agreementId⟩, .hasState State.finalized.code]
  offset := 0
  limit := 1

/-- The policy of an agreement, once its negotiation is finalized. -/
def findPolicy (l : Ledger) (agreementId : String) : Except StoreError (Option Policy) :=
  match l.query (concludedSpec agreementId) with
  | .error e => .error e
  | .ok answer => .ok (((answer.bind (·.head?)).bind (·.agreement)).map (·.policy))

end Ledger

end Parley
