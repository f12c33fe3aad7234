/-
  Parley.Proofs.Engine.Reception
  ────────────────────────────────
  **REQUESTS AND MESSAGES, IN PLAIN WORDS.**

  Six of the seven messages are about a record of the receiver.  What one of
  them does depends on that record only (`Message.acceptedBy`): it is refused,
  and the world is as before but for a lease that ended, or the record as the
  message makes it is stored.  A contract request opens a new record, or finds
  the one that it opened before.

      receive_direct      a message
      initiate_direct     the wish to negotiate
      terminate_direct    the wish to end a negotiation
-/
import Parley.Proofs.Engine.Direct

namespace Parley

/-! ## §1. What a message asks for. -/

/-- The state that an accepted message leads to. -/
def Payload.target : Payload → State
  | .contractRequest .. => .requested
  | .contractOffer _ => .offered
  | .negotiationEvent .accepted => .accepted
  | .negotiationEvent .finalized => .finalized
  | .contractAgreement _ => .agreed
  | .agreementVerification => .verified
  | .termination .. => .terminated

/-- Whether a payload brings an agreement. -/
def Payload.isAgreement : Payload → Bool
  | .contractAgreement _ => true
  | _ => false

/-- Only an agreement leads to AGREED. -/
theorem Payload.isAgreement_iff (payload : Payload) :
    payload.isAgreement = true ↔ payload.target = .agreed := by
  cases payload with
  | negotiationEvent event => cases event <;> decide
  | _ => simp [isAgreement, target]

/-- No message leads to TERMINATING: to end a negotiation is one's own decision. -/
theorem Payload.target_ne_terminating (payload : Payload) : payload.target ≠ .terminating := by
  cases payload with
  | negotiationEvent event => cases event <;> exact State.noConfusion
  | _ => exact State.noConfusion

namespace Message

/-- Whether the record that a message names for a role is in a ledger and has that role. -/
def isFor (m : Message) (l : Ledger) (role : Role) : Bool :=
  match m.processIdFor role with
  | none => false
  | some id =>
    match l.find? id with
    | some n => n.role = role
    | none => false

/-- The role whose record a message is about.  A termination may be for either. -/
def addressee? (m : Message) (l : Ledger) : Option Role :=
  match m.payload with
  | .contractRequest .. => none
  | .contractOffer _ | .contractAgreement _ | .negotiationEvent .finalized => some .consumer
  | .negotiationEvent .accepted | .agreementVerification => some .provider
  | .termination .. =>
    if m.isFor l .provider then some .provider
    else if m.isFor l .consumer then some .consumer
    else none

/-- A contract request is about no record of the receiver. -/
theorem addressee?_of_request {m : Message} {offer : Offer} {callbackAddress consumerId : String}
    (hm : m.payload = .contractRequest offer callbackAddress consumerId) (l : Ledger) :
    m.addressee? l = none := by
  unfold addressee?
  rw [hm]

/-- What the payload of a message adds to a record. -/
def enrich (m : Message) (n : Negotiation) : Negotiation :=
  match m.payload with
  | .contractOffer offer =>
    { n.addOffer offer with correlationId := n.correlationId.or m.providerPid }
  | .contractAgreement agreement => { n with agreement := some agreement }
  | .termination reason _ => n.explained reason
  | _ => n

theorem id_enrich (m : Message) (n : Negotiation) : (m.enrich n).id = n.id := by
  unfold enrich
  split
  · rfl
  · rfl
  · exact n.id_explained _
  · rfl

theorem checkEdge_enrich (m : Message) (n : Negotiation) (target : State) :
    (m.enrich n).checkEdge target = n.checkEdge target := by
  unfold enrich
  split
  · rfl
  · rfl
  · rename_i reason _ _
    cases reason <;> rfl
  · rfl

/-- What a message makes of a record, if it is accepted. -/
def outcome (m : Message) (n : Negotiation) (now : Instant) : Negotiation :=
  (m.enrich (n.withPending false)).enter m.payload.target.code now

/-- What a message makes of the record that it names for a role, or why it is refused. -/
def acceptedBy (m : Message) (role : Role) (n : Negotiation) (now : Instant) : Handled :=
  if n.role ≠ role then .error (.unexpectedRole n.id role n.role)
  else
    match n.checkEdge m.payload.target with
    | .error err => .error (.transition err)
    | .ok () =>
      if m.payload.isAgreement && n.agreement.isSome then
        .error (.transition (.agreementAlreadySet n.id))
      else .ok (m.outcome n now)

theorem acceptedBy_eq_ok_iff {m : Message} {role : Role} {n n' : Negotiation} {now : Instant} :
    m.acceptedBy role n now = .ok n' ↔ n.role = role
      ∧ n.checkEdge m.payload.target = .ok ()
      ∧ (m.payload.isAgreement = true → n.agreement = none) ∧ n' = m.outcome n now := by
  unfold acceptedBy
  by_cases hr : n.role = role
  · rw [if_neg (fun h => h hr)]
    cases hedge : n.checkEdge m.payload.target with
    | error err => simp
    | ok _ =>
      cases ha : m.payload.isAgreement <;> cases hset : n.agreement <;>
        simp [hr, eq_comm]
  · rw [if_pos hr]
    simp [hr]

end Message

/-- The record that a contract request opens. -/
def Message.opened (m : Message) (offer : Offer) (callbackAddress consumerId id : String)
    (now : Instant) : Negotiation :=
  ({ Negotiation.new id .provider consumerId callbackAddress m.protocol now with
      correlationId := some m.consumerPid }.addOffer offer).enter State.requested.code now

/-- The record that a local wish to negotiate opens. -/
def ContractRequest.opened (r : ContractRequest) (id : String) (now : Instant) : Negotiation :=
  (Negotiation.new id .consumer r.counterPartyId r.counterPartyAddress r.protocol now).addOffer
    r.offer

namespace World

/-- The number of a further draw is taken. -/
def draw (w : World) : World :=
  { w with supply := w.supply.draw }

/-- The id that is drawn next. -/
def nextId (w : World) : String :=
  w.supply.next

@[simp] theorem ledger_draw (w : World) : w.draw.ledger = w.ledger := rfl
@[simp] theorem now_draw (w : World) : w.draw.now = w.now := rfl
@[simp] theorem supply_draw (w : World) : w.draw.supply = w.supply.draw := rfl

end World

/-! ## §2. Messages about a record. -/

namespace Engine

variable {e : Engine} {w : World}

/-- What an engine makes of a message for a role. -/
def received (e : Engine) (w : World) (m : Message) (role : Role) : Handled × World :=
  match m.processIdFor role with
  | none => (.error (.noProcessId m.typeName role), w)
  | some id =>
    match w.ledger.find? id with
    | none => (.error (.notFound id), w)
    | some n =>
      match m.acceptedBy role (n.withLease (some (e.handle.leaseAt w.now))) w.now with
      | .error err => (.error err, (w.lend e.handle id).free id)
      | .ok n' => (.ok n', (w.lend e.handle id).commit m.payload.target n')

/-- Along an edge that was checked, a record moves. -/
theorem moveTo_of_checkEdge {n : Negotiation} {target : State}
    (h : n.checkEdge target = .ok ()) (now : Instant) :
    n.moveTo target now = .ok (n.enter target.code now) := by
  unfold Negotiation.moveTo
  rw [h]

theorem transition_of_checkEdge {n : Negotiation} {target : State}
    (hn : ¬ w.ledger.Shields n.id e.handle.holder w.now) (h : n.checkEdge target = .ok ()) :
    e.transition .direct n target w
      = (.ok (n.enter target.code w.now), w.commit target (n.enter target.code w.now)) := by
  rw [transition_direct hn, moveTo_of_checkEdge h]

/-- How an engine goes on with the record of a message, once it is acquired. -/
def pursue (e : Engine) (m : Message) (n : Negotiation) : StateM World Handled :=
  match m.payload with
  | .contractAgreement agreement =>
    if n.agreement.isSome then e.refuse .direct n (.transition (.agreementAlreadySet n.id))
    else e.transitionAgreed .direct n agreement
  | .termination reason _ => e.transitionTerminated .direct n reason
  | payload => e.transition .direct (m.enrich n) payload.target

/-- An agreement is refused where one is set.  Every other record becomes what the message makes of
it. -/
theorem pursue_direct {m : Message} {n : Negotiation}
    (hn : ¬ w.ledger.Shields n.id e.handle.holder w.now)
    (hcheck : n.checkEdge m.payload.target = .ok ()) :
    e.pursue m (n.withPending false) w =
      if m.payload.isAgreement && n.agreement.isSome then
        (.error (.transition (.agreementAlreadySet n.id)), w.free n.id)
      else (.ok (m.outcome n w.now), w.commit m.payload.target (m.outcome n w.now)) := by
  have henriched : e.transition .direct (m.enrich (n.withPending false)) m.payload.target w
      = (.ok (m.outcome n w.now), w.commit m.payload.target (m.outcome n w.now)) := by
    refine transition_of_checkEdge ?_ ?_
    · rw [Message.id_enrich]
      exact hn
    · rw [Message.checkEdge_enrich]
      exact hcheck
  have hmove : (n.withPending false).moveTo m.payload.target w.now
      = .ok ((n.withPending false).enter m.payload.target.code w.now) :=
    moveTo_of_checkEdge (n := n.withPending false) hcheck w.now
  unfold pursue
  cases hm : m.payload with
  | contractAgreement agreement =>
    have hagreed : (n.withPending false).moveTo .agreed w.now
        = .ok ((n.withPending false).enter State.agreed.code w.now) := by
      rw [hm] at hmove
      exact hmove
    have hagreement : (n.withPending false).agreement = n.agreement := rfl
    have hrefuse := refuse_direct (n := n.withPending false) hn
    have hagree := transitionAgreed_direct (n := n.withPending false) hn agreement
    simp only [Payload.isAgreement, Bool.true_and, hagreement]
    cases hset : n.agreement with
    | some known => exact hrefuse _
    | none =>
      simp only [Option.isSome_none, Bool.false_eq_true, if_false]
      rw [hagree]
      simp only [Negotiation.agreeOn, hagreement, hset, Option.isSome_none, Bool.false_eq_true,
        if_false, hagreed, Message.outcome, Message.enrich, hm]
      rfl
  | termination reason policy =>
    have hterminated : (n.withPending false).moveTo .terminated w.now
        = .ok ((n.withPending false).enter State.terminated.code w.now) := by
      rw [hm] at hmove
      exact hmove
    simp only [Payload.isAgreement, Bool.false_and, Bool.false_eq_true, if_false]
    rw [transitionTerminated_direct (n := n.withPending false) hn, hterminated]
    simp only [Message.outcome, Message.enrich, hm]
    cases reason <;> rfl
  | _ =>
    rw [hm] at henriched
    exact henriched

/-- An operation on the record of a message does what the message asks for. -/
theorem acquire_received {m : Message} {role : Role}
    (hm : ∀ id, m.processIdFor role = some id → ¬ w.ledger.Shields id e.handle.holder w.now) :
    e.acquire .direct m role m.payload.target (e.pursue m) w = e.received w m role := by
  rw [acquire_direct hm, received]
  cases m.processIdFor role with
  | none => rfl
  | some id =>
    simp only
    cases hf : w.ledger.find? id with
    | none => rfl
    | some n =>
      simp only
      have hid : n.id = id := Ledger.id_of_find? hf
      subst hid
      -- Role, edge and id are read from the leased record, and a lease changes none of them.
      have hrole : (n.withLease (some (e.handle.leaseAt w.now))).role = n.role := rfl
      have hedge : (n.withLease (some (e.handle.leaseAt w.now))).checkEdge m.payload.target
          = n.checkEdge m.payload.target := rfl
      have hname : (n.withLease (some (e.handle.leaseAt w.now))).id = n.id := rfl
      unfold Message.acceptedBy
      rw [hedge, hrole, hname]
      by_cases hr : n.role ≠ role
      · rw [if_pos hr, if_pos hr]
      · rw [if_neg hr, if_neg hr]
        cases hcheck : n.checkEdge m.payload.target with
        | error err => rfl
        | ok _ =>
          have hpursue := pursue_direct (n := n.withLease (some (e.handle.leaseAt w.now)))
            (not_shields_lend e w n.id) (hedge.trans hcheck)
          simp only
          rw [hpursue, hname]
          split <;> rfl

/-- What an engine makes of a contract request. -/
def requested (w : World) (m : Message) (offer : Offer)
    (callbackAddress consumerId : String) : Handled × World :=
  match knownRequest? m.consumerPid w.ledger with
  | some n => (.ok n, w)
  | none =>
    let n := m.opened offer callbackAddress consumerId w.nextId w.now
    (.ok n, w.draw.commit .requested n)

theorem notifyRequested_direct (hw : w.ledger.HeldBy e.handle.holder) {m : Message}
    {offer : Offer} {callbackAddress consumerId : String}
    (hm : m.payload = .contractRequest offer callbackAddress consumerId) :
    e.notifyRequested .direct m w = requested w m offer callbackAddress consumerId := by
  unfold notifyRequested requested
  rw [hm]
  simp only
  rw [run_bind, Access.direct_read]
  cases knownRequest? m.consumerPid w.ledger with
  | some n => rfl
  | none =>
    simp only
    rw [run_bind, Access.direct_drawId, run_bind, Access.direct_now]
    exact transition_of_checkEdge (w := w.draw) (hw.not_shields _ w.now) rfl

/-- The role for which a termination is taken. -/
theorem receivingRole?_direct {m : Message} {reason : Option String} {policy : Option Policy}
    (hm : m.payload = .termination reason policy) (w : World) :
    receivingRole? .direct m w = (m.addressee? w.ledger, w) := by
  have hheld : ∀ role, isHeldAs .direct m role w = (m.isFor w.ledger role, w) := by
    intro role
    unfold isHeldAs Message.isFor
    cases m.processIdFor role with
    | none => rfl
    | some id =>
      simp only
      rw [run_bind, Access.direct_find]
      cases w.ledger.find? id <;> rfl
  unfold receivingRole? Message.addressee?
  rw [hm, run_bind, hheld]
  simp only
  -- The provider is asked first.
  cases m.isFor w.ledger .provider with
  | true => rfl
  | false =>
    simp only [Bool.false_eq_true, if_false]
    rw [run_bind, hheld]
    cases m.isFor w.ledger .consumer <;> rfl

/-- A message that is not a request is for the record of its addressee, if there is one. -/
theorem receive_eq_acquire {m : Message} (hm : m.payload.target ≠ .requested) :
    e.receive .direct m w = match m.addressee? w.ledger with
      | none => (.error (.notFound m.consumerPid), w)
      | some role => e.acquire .direct m role m.payload.target (e.pursue m) w := by
  have hgoOn (goOn : Negotiation → StateM World Handled) (h : goOn = e.pursue m) (role : Role)
      (target : State) : e.acquire .direct m role target goOn w
        = e.acquire .direct m role target (e.pursue m) w := by rw [h]
  unfold receive
  cases hp : m.payload with
  | contractRequest offer callbackAddress consumerId =>
    rw [hp] at hm
    exact (hm rfl).elim
  | contractOffer offer =>
    simp only [notifyOffered, Message.addressee?, hp]
    refine hgoOn _ ?_ .consumer .offered
    funext n
    simp only [pursue, Message.enrich, hp]
    rfl
  | contractAgreement agreement =>
    simp only [notifyAgreed, Message.addressee?, hp]
    refine hgoOn _ ?_ .consumer .agreed
    funext n
    simp only [pursue, hp]
  | agreementVerification =>
    simp only [notifyVerified, Message.addressee?, hp]
    refine hgoOn _ ?_ .provider .verified
    funext n
    simp only [pursue, Message.enrich, hp]
    rfl
  | negotiationEvent event =>
    cases event with
    | accepted =>
      simp only [notifyAccepted, Message.addressee?, hp]
      refine hgoOn _ ?_ .provider .accepted
      funext n
      simp only [pursue, Message.enrich, hp]
      rfl
    | finalized =>
      simp only [notifyFinalized, Message.addressee?, hp]
      refine hgoOn _ ?_ .consumer .finalized
      funext n
      simp only [pursue, Message.enrich, hp]
      rfl
  -- A termination is the one message that may be for either role.
  | termination reason policy =>
    simp only [notifyTerminated, hp]
    rw [run_bind, receivingRole?_direct hp]
    cases m.addressee? w.ledger with
    | none => rfl
    | some role =>
      refine hgoOn _ ?_ role .terminated
      funext n
      simp only [pursue, hp]

/-- A message for a record that is not shielded. -/
theorem receive_of_not_shields {m : Message} (hm : m.payload.target ≠ .requested) {role : Role}
    (haddr : m.addressee? w.ledger = some role)
    (hfree : ∀ id, m.processIdFor role = some id →
      ¬ w.ledger.Shields id e.handle.holder w.now) :
    e.receive .direct m w = e.received w m role := by
  rw [receive_eq_acquire hm, haddr]
  exact acquire_received hfree

/-- A message for a record that another worker has leased. -/
theorem receive_of_lease? {m : Message} (hm : m.payload.target ≠ .requested) {role : Role}
    {id : String} {lease : Lease} (haddr : m.addressee? w.ledger = some role)
    (hpid : m.processIdFor role = some id) (hlease : w.ledger.lease? id = some lease)
    (hlive : lease.shieldsFrom e.handle.holder w.now = true) :
    e.receive .direct m w = (.error (.store (.leaseConflict id lease.holder)), w) := by
  rw [receive_eq_acquire hm, haddr]
  exact acquire_of_lease? hpid hlease hlive _ _

/-- What an engine makes of a message that is for one of its records, or for none. -/
def addressed (e : Engine) (w : World) (m : Message) : Handled × World :=
  match m.addressee? w.ledger with
  | none => (.error (.notFound m.consumerPid), w)
  | some role => e.received w m role

/-- What an engine makes of a message. -/
theorem receive_direct (hw : w.ledger.HeldBy e.handle.holder) (m : Message) :
    e.receive .direct m w = match m.payload with
      | .contractRequest offer callbackAddress consumerId =>
        requested w m offer callbackAddress consumerId
      | _ => e.addressed w m := by
  have haddressed (hm : m.payload.target ≠ .requested) :
      e.receive .direct m w = e.addressed w m := by
    unfold addressed
    cases haddr : m.addressee? w.ledger with
    | none => rw [receive_eq_acquire hm, haddr]
    | some role => exact receive_of_not_shields hm haddr fun id _ => hw.not_shields id w.now
  cases hp : m.payload with
  | contractRequest offer callbackAddress consumerId =>
    unfold receive
    rw [hp]
    exact notifyRequested_direct hw hp
  | negotiationEvent event =>
    refine haddressed ?_
    rw [hp]
    cases event <;> exact State.noConfusion
  | contractOffer offer | contractAgreement agreement | agreementVerification
  | termination reason policy =>
    refine haddressed ?_
    rw [hp]
    exact State.noConfusion

/-! ## §3. The local application. -/

theorem initiate_direct (hw : w.ledger.HeldBy e.handle.holder) (r : ContractRequest) :
    e.initiate .direct r w
      = (.ok (r.opened w.nextId w.now), w.draw.commit .initial (r.opened w.nextId w.now)) := by
  unfold initiate
  rw [run_bind, Access.direct_drawId, run_bind, Access.direct_now]
  exact persist_direct (w := w.draw) (hw.not_shields _ w.now) .initial

/-- A record that is to be terminated, for a reason. -/
def doomed (n : Negotiation) (reason : String) (now : Instant) : Negotiation :=
  ((n.withPending false).withErrorDetail reason).enter State.terminating.code now

theorem terminate_direct {id : String} (hid : ¬ w.ledger.Shields id e.handle.holder w.now)
    (reason : String) :
    e.terminate .direct id reason w = match w.ledger.find? id with
      | none => (.error (.notFound id), w)
      | some n =>
        match n.checkEdge .terminating with
        | .error err => (.error (.transition err), (w.lend e.handle id).free id)
        | .ok () =>
          (.ok (doomed (n.withLease (some (e.handle.leaseAt w.now))) reason w.now),
            (w.lend e.handle id).commit .terminating
              (doomed (n.withLease (some (e.handle.leaseAt w.now))) reason w.now)) := by
  unfold terminate
  rw [run_bind, leaseById_direct hid]
  cases hf : w.ledger.find? id with
  | none => rfl
  | some n =>
    have hname : n.id = id := Ledger.id_of_find? hf
    subst hname
    have hedge : (n.withLease (some (e.handle.leaseAt w.now))).checkEdge .terminating
        = n.checkEdge .terminating := rfl
    have hlent := not_shields_lend e w n.id
    simp only
    rw [hedge]
    cases hcheck : n.checkEdge .terminating with
    | error err => exact refuse_direct (n := n.withLease (some (e.handle.leaseAt w.now))) hlent _
    | ok _ => exact transition_of_checkEdge hlent hcheck

/-- The record that another worker has leased is not to be ended. -/
theorem terminate_of_lease? {id : String} {lease : Lease}
    (hlease : w.ledger.lease? id = some lease)
    (hlive : lease.shieldsFrom e.handle.holder w.now = true) (reason : String) :
    e.terminate .direct id reason w = (.error (.store (.leaseConflict id lease.holder)), w) := by
  unfold terminate
  rw [run_bind, leaseById_of_lease? hlease hlive]
  rfl

/-! ## §4. The operations for messages. -/

end Engine

/-- The operations that a message can be handed to. -/
inductive Inlet where
  | requested
  | offered
  | accepted
  | agreed
  | verified
  | finalized
  | terminated
deriving DecidableEq, Repr

namespace Inlet

/-- Whether an operation takes a payload. -/
def takes : Inlet → Payload → Bool
  | requested, .contractRequest .. => true
  | offered, .contractOffer _ => true
  | accepted, .negotiationEvent .accepted => true
  | agreed, .contractAgreement _ => true
  | verified, .agreementVerification => true
  | finalized, .negotiationEvent .finalized => true
  | terminated, .termination .. => true
  | _, _ => false

/-- The name of the message type that an operation takes. -/
def expected : Inlet → String
  | requested => "ContractRequestMessage"
  | offered => "ContractOfferMessage"
  | accepted | finalized => "ContractNegotiationEventMessage"
  | agreed => "ContractAgreementMessage"
  | verified => "ContractAgreementVerificationMessage"
  | terminated => "ContractNegotiationTerminationMessage"

end Inlet

namespace Engine

variable {e : Engine} {w : World} {M : Type → Type} [Monad M]

/-- Hand a message to an operation. -/
def notify (e : Engine) (a : Access M) (inlet : Inlet) (m : Message) : M Handled :=
  match inlet with
  | .requested => e.notifyRequested a m
  | .offered => e.notifyOffered a m
  | .accepted => e.notifyAccepted a m
  | .agreed => e.notifyAgreed a m
  | .verified => e.notifyVerified a m
  | .finalized => e.notifyFinalized a m
  | .terminated => e.notifyTerminated a m

/-- An operation receives the messages that it takes and refuses the others. -/
theorem notify_eq (e : Engine) (a : Access M) (inlet : Inlet) (m : Message) :
    e.notify a inlet m =
      if inlet.takes m.payload then e.receive a m else unexpected inlet.expected m := by
  unfold receive
  cases hm : m.payload with
  | negotiationEvent event =>
    cases event <;> cases inlet <;>
      simp [notify, Inlet.takes, Inlet.expected, notifyRequested, notifyOffered, notifyAccepted,
        notifyAgreed, notifyVerified, notifyFinalized, notifyTerminated, hm]
  | _ =>
    cases inlet <;>
      simp [notify, Inlet.takes, Inlet.expected, notifyRequested, notifyOffered, notifyAccepted,
        notifyAgreed, notifyVerified, notifyFinalized, notifyTerminated, hm]

end Engine

end Parley
