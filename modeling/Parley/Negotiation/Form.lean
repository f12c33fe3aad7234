/-
  Parley.Negotiation.Form
  ────────────────────────────────
  **NEGOTIATIONS AND MESSAGES AS DATA.**

  Every record of the protocol is written as an object and read from one.  Dates
  are written as texts.  The book keeping of a negotiation is written among its
  other members, so a negotiation is always an object; any other record may be
  given as an array of its fields.  A payload names its kind:

      kind "negotiation_event", event_type "ACCEPTED"
-/
import Parley.Json.Form
import Parley.Negotiation.Message
import Parley.Time.Timestamp

namespace Parley

open Parley.Json

/-! ## §1. Names, dates, leases. -/

/-- A date as data. -/
def Instant.toJson (t : Instant) : Json := .text (Timestamp.render t)

/-- A date from data. -/
def Instant.ofJson? (j : Json) : Option Instant := j.text?.bind Timestamp.parse?

/-- A state as data. -/
def State.toJson (s : State) : Json := .text s.name

/-- A state from data. -/
def State.ofJson? (j : Json) : Option State := choice? false State.ofName? j

/-- A role as data. -/
def Role.toJson (r : Role) : Json := .text r.tag

/-- A role from data. -/
def Role.ofJson? (j : Json) : Option Role := choice? false Role.ofTag? j

/-- A lease as data. -/
def Lease.toJson (l : Lease) : Json :=
  .object [("leased_by", .text l.holder), ("leased_at", l.since.toJson),
    ("lease_duration_ms", .int l.duration)]

/-- A lease from data. -/
def Lease.ofJson? (j : Json) : Option Lease := do
  let f ← Fields.of? ["leased_by", "leased_at", "lease_duration_ms"] j
  return {
    holder := ← f.required "leased_by" text?
    since := ← f.required "leased_at" Instant.ofJson?
    duration := ← f.required "lease_duration_ms" signed64? }

/-! ## §2. Policies, offers, agreements. -/

/-- A policy as data. -/
def Policy.toJson (p : Policy) : Json :=
  .object [("uid", .ofOption .text p.uid), ("permissions", .array p.permissions),
    ("prohibitions", .array p.prohibitions), ("obligations", .array p.obligations),
    ("target", .ofOption .text p.target), ("assigner", .ofOption .text p.assigner),
    ("assignee", .ofOption .text p.assignee)]

/-- A policy from data. -/
def Policy.ofJson? (j : Json) : Option Policy := do
  let f ← Fields.of? ["uid", "permissions", "prohibitions", "obligations", "target", "assigner",
    "assignee"] j
  return {
    uid := ← f.optional "uid" text?
    permissions := ← f.defaulted "permissions" [] items?
    prohibitions := ← f.defaulted "prohibitions" [] items?
    obligations := ← f.defaulted "obligations" [] items?
    target := ← f.optional "target" text?
    assigner := ← f.optional "assigner" text?
    assignee := ← f.optional "assignee" text? }

/-- An offer as data. -/
def Offer.toJson (o : Offer) : Json :=
  .object [("id", .text o.id), ("asset_id", .text o.assetId), ("provider_id", .text o.providerId),
    ("policy", o.policy.toJson)]

/-- An offer from data. -/
def Offer.ofJson? (j : Json) : Option Offer := do
  let f ← Fields.of? ["id", "asset_id", "provider_id", "policy"] j
  return {
    id := ← f.required "id" text?
    assetId := ← f.required "asset_id" text?
    providerId := ← f.required "provider_id" text?
    policy := ← f.required "policy" Policy.ofJson? }

/-- An agreement as data. -/
def Agreement.toJson (a : Agreement) : Json :=
  .object [("id", .text a.id), ("provider_id", .text a.providerId),
    ("consumer_id", .text a.consumerId), ("asset_id", .text a.assetId),
    ("policy", a.policy.toJson), ("contract_signing_date", a.signingDate.toJson)]

/-- An agreement from data. -/
def Agreement.ofJson? (j : Json) : Option Agreement := do
  let f ← Fields.of? ["id", "provider_id", "consumer_id", "asset_id", "policy",
    "contract_signing_date"] j
  return {
    id := ← f.required "id" text?
    providerId := ← f.required "provider_id" text?
    consumerId := ← f.required "consumer_id" text?
    assetId := ← f.required "asset_id" text?
    policy := ← f.required "policy" Policy.ofJson?
    signingDate := ← f.required "contract_signing_date" Instant.ofJson? }

/-! ## §3. Negotiations. -/

/-- A dictionary of texts as data. -/
def Dictionary.toJson (d : Dictionary String) : Json :=
  .object (d.entries.map fun e => (e.1, .text e.2))

/-- A dictionary of texts from data. -/
def Dictionary.ofJson? : Json → Option (Dictionary String)
  | .members entries => (entries.mapM textEntry?).map Dictionary.ofList
  | _ => none
where
  textEntry? (e : String × Json) : Option (String × String) := e.2.text?.map fun s => (e.1, s)

/-- The members that book keeping is written as.  An empty trace context is left out. -/
def Lifecycle.toMembers (c : Lifecycle) : List (String × Json) :=
  [("id", .text c.id), ("state", .int c.state), ("state_count", .int c.stateCount),
   ("state_timestamp", c.stateTimestamp.toJson), ("pending", .bool c.pending),
   ("error_detail", .ofOption .text c.errorDetail), ("lease", .ofOption Lease.toJson c.lease),
   ("created_at", c.createdAt.toJson), ("updated_at", c.updatedAt.toJson)] ++
    if c.traceContext.entries = [] then [] else [("trace_context", c.traceContext.toJson)]

/-- Book keeping as data. -/
def Lifecycle.toJson (c : Lifecycle) : Json :=
  .object c.toMembers

/-- Book keeping from fields. -/
def Lifecycle.ofFields? (f : Fields) : Option Lifecycle := do
  return {
    id := ← f.required "id" text?
    state := ← f.required "state" signed32?
    stateCount := ← f.required "state_count" unsigned32?
    stateTimestamp := ← f.required "state_timestamp" Instant.ofJson?
    pending := ← f.required "pending" bool?
    errorDetail := ← f.optional "error_detail" text?
    lease := ← f.optional "lease" Lease.ofJson?
    createdAt := ← f.required "created_at" Instant.ofJson?
    updatedAt := ← f.required "updated_at" Instant.ofJson?
    traceContext := ← f.defaulted "trace_context" .empty Dictionary.ofJson? }

/-- Book keeping from data. -/
def Lifecycle.ofJson? (j : Json) : Option Lifecycle := do
  let f ← Fields.of? ["id", "state", "state_count", "state_timestamp", "pending", "error_detail",
    "lease", "created_at", "updated_at", "trace_context"] j
  Lifecycle.ofFields? f

/-- A negotiation as data. -/
def Negotiation.toJson (n : Negotiation) : Json :=
  .object (n.toLifecycle.toMembers ++
    [("type", n.role.toJson), ("correlation_id", .ofOption .text n.correlationId),
     ("counter_party_id", .text n.counterPartyId),
     ("counter_party_address", .text n.counterPartyAddress), ("protocol", .text n.protocol),
     ("contract_offers", .ofList Offer.toJson n.offers),
     ("contract_agreement", .ofOption Agreement.toJson n.agreement)])

/-- A negotiation from data. -/
def Negotiation.ofJson? (j : Json) : Option Negotiation := do
  let f ← Fields.ofMembers? j
  return {
    toLifecycle := ← Lifecycle.ofFields? f
    role := ← f.required "type" Role.ofJson?
    correlationId := ← f.optional "correlation_id" text?
    counterPartyId := ← f.required "counter_party_id" text?
    counterPartyAddress := ← f.required "counter_party_address" text?
    protocol := ← f.required "protocol" text?
    offers := ← f.required "contract_offers" (listOf? Offer.ofJson?)
    agreement := ← f.optional "contract_agreement" Agreement.ofJson? }

/-! ## §4. Payloads. -/

/-- The name of an event. -/
def Milestone.name : Milestone → String
  | accepted => "ACCEPTED"
  | finalized => "FINALIZED"

/-- The event of a name. -/
def Milestone.ofName? : String → Option Milestone
  | "ACCEPTED" => some accepted
  | "FINALIZED" => some finalized
  | _ => none

/-- A payload as data. -/
def Payload.toJson : Payload → Json
  | .contractRequest offer callbackAddress consumerId =>
    .object [("kind", .text "contract_request"), ("offer", offer.toJson),
      ("callback_address", .text callbackAddress), ("consumer_id", .text consumerId)]
  | .contractOffer offer =>
    .object [("kind", .text "contract_offer"), ("offer", offer.toJson)]
  | .negotiationEvent event =>
    .object [("kind", .text "negotiation_event"), ("event_type", .text event.name)]
  | .contractAgreement agreement =>
    .object [("kind", .text "contract_agreement"), ("agreement", agreement.toJson)]
  | .agreementVerification =>
    .object [("kind", .text "agreement_verification")]
  | .termination reason policy =>
    .object [("kind", .text "termination"), ("reason", .ofOption .text reason),
      ("policy", .ofOption Policy.toJson policy)]

/-- The body of a payload of a kind, from what is left when the kind is taken out. -/
def Payload.ofBody? (kind : String) (body : Json) : Option Payload :=
  match kind with
  | "contract_request" => do
    let f ← Fields.of? ["offer", "callback_address", "consumer_id"] body
    return .contractRequest (← f.required "offer" Offer.ofJson?)
      (← f.required "callback_address" text?) (← f.required "consumer_id" text?)
  | "contract_offer" => do
    let f ← Fields.of? ["offer"] body
    return .contractOffer (← f.required "offer" Offer.ofJson?)
  | "negotiation_event" => do
    let f ← Fields.of? ["event_type"] body
    return .negotiationEvent (← f.required "event_type" (choice? true Milestone.ofName?))
  | "contract_agreement" => do
    let f ← Fields.of? ["agreement"] body
    return .contractAgreement (← f.required "agreement" Agreement.ofJson?)
  | "agreement_verification" => do
    let _ ← Fields.of? [] body
    return .agreementVerification
  | "termination" => do
    let f ← Fields.of? ["reason", "policy"] body
    return .termination (← f.optional "reason" text?) (← f.optional "policy" Policy.ofJson?)
  | _ => none

/-- A payload from data: an object, or an array that begins with the kind. -/
def Payload.ofJson? : Json → Option Payload
  | .members entries =>
    match findEntry "kind" entries with
    | some (.text kind) => ofBody? kind (.members entries)
    | _ => none
  | .array (.text kind :: rest) => ofBody? kind (.array rest)
  | _ => none

/-! ## §5. Messages and requests. -/

/-- A stored message as data. -/
def Envelope.toJson (e : Envelope) : Json :=
  .object [("id", .text e.id), ("protocol", .text e.protocol),
    ("counter_party_address", .text e.counterPartyAddress), ("consumer_pid", .text e.consumerPid),
    ("provider_pid", .ofOption .text e.providerPid), ("payload", e.payload.toJson)]

/-- A stored message from data. -/
def Envelope.ofJson? (j : Json) : Option Envelope := do
  let f ← Fields.of? ["id", "protocol", "counter_party_address", "consumer_pid", "provider_pid",
    "payload"] j
  return {
    id := ← f.required "id" text?
    protocol := ← f.required "protocol" text?
    counterPartyAddress := ← f.required "counter_party_address" text?
    consumerPid := ← f.required "consumer_pid" text?
    providerPid := ← f.optional "provider_pid" text?
    payload := ← f.required "payload" Payload.ofJson? }

/-- A request as data. -/
def ContractRequest.toJson (r : ContractRequest) : Json :=
  .object [("counter_party_id", .text r.counterPartyId),
    ("counter_party_address", .text r.counterPartyAddress), ("protocol", .text r.protocol),
    ("offer", r.offer.toJson)]

/-- A request from data. -/
def ContractRequest.ofJson? (j : Json) : Option ContractRequest := do
  let f ← Fields.of? ["counter_party_id", "counter_party_address", "protocol", "offer"] j
  return {
    counterPartyId := ← f.required "counter_party_id" text?
    counterPartyAddress := ← f.required "counter_party_address" text?
    protocol := ← f.required "protocol" text?
    offer := ← f.required "offer" Offer.ofJson? }

/-- The kind of failure of a name. -/
def FailureKind.ofName? : String → Option FailureKind
  | "retryable" => some retryable
  | "fatal" => some fatal
  | _ => none

/-- A failed send as data. -/
def DispatchFailure.toJson (f : DispatchFailure) : Json :=
  .object [("kind", .text f.kind.name), ("message", .text f.message)]

/-- A failed send from data. -/
def DispatchFailure.ofJson? (j : Json) : Option DispatchFailure := do
  let f ← Fields.of? ["kind", "message"] j
  return {
    kind := ← f.required "kind" (choice? false FailureKind.ofName?)
    message := ← f.required "message" text? }

end Parley
