/-
  Parley.Proofs.Engine.Effects
  ────────────────────────────────
  **WHAT AN OPERATION DOES TO THE RECORDS.**

  Each operation of an engine either leaves the records as they are or writes
  one of them, and then what it writes is told by the record as it was stored,
  without its lease:

      a message     `Message.acceptedBy`
      a reply       `Engine.upshot`
      a decision    `Negotiation.moveTo`

  What is written keeps the record it comes from, and follows an edge of the
  graph from it (`Keeps`, `Moves`).
-/
import Parley.Proofs.Engine.Handling
import Parley.Proofs.Engine.Reception
import Parley.Proofs.Negotiation.Progress
import Parley.Proofs.World.Change

namespace Parley

open Parley.Retry

/-! ## §1. Messages. -/

namespace Message

/-- What a message makes of a record does not depend on the lease. -/
theorem outcome_withLease (m : Message) (n : Negotiation) (lease lease' : Option Lease)
    (now : Instant) :
    (m.outcome (n.withLease lease) now).withLease lease'
      = (m.outcome n now).withLease lease' := by
  unfold outcome enrich
  cases m.payload with
  | termination reason policy => cases reason <;> rfl
  | _ => rfl

theorem acceptedBy_withLease (m : Message) (role : Role) (n : Negotiation)
    (lease : Option Lease) (now : Instant) :
    (∃ err, m.acceptedBy role (n.withLease lease) now = .error err
        ∧ m.acceptedBy role n now = .error err)
      ∨ (m.acceptedBy role (n.withLease lease) now = .ok (m.outcome (n.withLease lease) now)
        ∧ m.acceptedBy role n now = .ok (m.outcome n now)) := by
  have hrole : (n.withLease lease).role = n.role := rfl
  have hid : (n.withLease lease).id = n.id := rfl
  have hset : (n.withLease lease).agreement = n.agreement := rfl
  have hedge : (n.withLease lease).checkEdge m.payload.target
      = n.checkEdge m.payload.target := rfl
  unfold acceptedBy
  rw [hrole, hid, hset, hedge]
  split
  · exact .inl ⟨_, rfl, rfl⟩
  · cases n.checkEdge m.payload.target with
    | error err => exact .inl ⟨_, rfl, rfl⟩
    | ok _ =>
      simp only
      split
      · exact .inl ⟨_, rfl, rfl⟩
      · exact .inr ⟨rfl, rfl⟩

theorem id_outcome (m : Message) (n : Negotiation) (now : Instant) :
    (m.outcome n now).id = n.id :=
  m.id_enrich (n.withPending false)

theorem counterPartyId_outcome (m : Message) (n : Negotiation) (now : Instant) :
    (m.outcome n now).counterPartyId = n.counterPartyId := by
  unfold outcome enrich
  cases m.payload with
  | termination reason policy => cases reason <;> rfl
  | _ => rfl

theorem state_outcome (m : Message) (n : Negotiation) (now : Instant) :
    (m.outcome n now).state = m.payload.target.code := rfl

theorem agreement_outcome (m : Message) (n : Negotiation) (now : Instant)
    (hm : m.payload.isAgreement = false) : (m.outcome n now).agreement = n.agreement := by
  unfold outcome enrich
  cases hp : m.payload with
  | contractAgreement agreement =>
    rw [hp] at hm
    cases hm
  | termination reason policy => cases reason <;> rfl
  | _ => rfl

/-- A message that brings an agreement sets it. -/
theorem isSome_agreement_outcome (m : Message) (n : Negotiation) (now : Instant)
    (hm : m.payload.isAgreement = true) : (m.outcome n now).agreement.isSome = true := by
  unfold outcome enrich
  cases hp : m.payload with
  | contractAgreement agreement => rfl
  | _ =>
    rw [hp] at hm
    cases hm

/-- Only a termination gives a reason. -/
theorem errorDetail_outcome (m : Message) (n : Negotiation) (now : Instant)
    (hm : m.payload.target ≠ .terminated) : (m.outcome n now).errorDetail = n.errorDetail := by
  unfold outcome enrich
  cases hp : m.payload with
  | termination reason policy =>
    rw [hp] at hm
    exact (hm rfl).elim
  | _ => rfl

/-- A message tells a record no name but the one that it carries. -/
theorem correlationId_outcome {m : Message} {n : Negotiation} {now : Instant} {pid : String}
    (h : (m.outcome n now).correlationId = some pid) :
    n.correlationId = some pid ∨ m.providerPid = some pid := by
  unfold outcome enrich at h
  cases hp : m.payload with
  | contractOffer offer =>
    rw [hp] at h
    have hor : n.correlationId.or m.providerPid = some pid := h
    cases hname : n.correlationId with
    | none => exact .inr (by rw [hname] at hor; exact hor)
    | some known => exact .inl (by rw [hname] at hor; exact hor)
  | termination reason policy =>
    rw [hp] at h
    cases reason <;> exact .inl h
  | _ =>
    rw [hp] at h
    exact .inl h

theorem keeps_outcome {m : Message} {n : Negotiation} (now : Instant)
    (hagreement : m.payload.isAgreement = true → n.agreement = none)
    (hoffer : m.payload.target = .offered → n.role = .consumer) :
    n.Keeps (m.outcome n now) := by
  have hn := (Negotiation.Keeps.refl n).withPending false
  refine Negotiation.Keeps.enter ?_ _ _
  unfold enrich
  -- Only an offer, an agreement and a termination bring something along.
  cases hm : m.payload with
  | contractOffer offer =>
    rw [hm] at hoffer
    exact (hn.addOffer offer).correlated (hoffer rfl) _
  | contractAgreement agreement =>
    rw [hm] at hagreement
    exact hn.agreed (hagreement rfl) agreement
  | termination reason policy =>
    cases reason with
    | none => exact hn
    | some detail => exact hn.withErrorDetail detail
  | contractRequest offer callbackAddress consumerId => exact hn
  | negotiationEvent event => exact hn
  | agreementVerification => exact hn

end Message

namespace Engine

variable {e : Engine} {w : World}

/-- A message for a role is refused, and the records are as they were, or it is accepted, and the
record that it names is written as the message makes it. -/
theorem received_effect (hw : w.ledger.HeldBy e.handle.holder) (m : Message) (role : Role) :
    (∃ n n' r, m.processIdFor role = some n.id ∧ w.ledger.content n.id = some n
        ∧ m.acceptedBy role n w.now = .ok n'
        ∧ (e.received w m role).1 = .ok r ∧ r.id = n.id
        ∧ w.Puts (e.received w m role).2 n'
        ∧ (e.received w m role).2.ledger.HeldBy e.handle.holder)
      ∨ ((∀ n, m.processIdFor role = some n.id → w.ledger.content n.id = some n →
          ∃ err, m.acceptedBy role n w.now = .error err)
        ∧ (∃ err, (e.received w m role).1 = .error err)
        ∧ w.Same (e.received w m role).2
        ∧ (e.received w m role).2.ledger.HeldBy e.handle.holder) := by
  unfold received
  cases hp : m.processIdFor role with
  | none => exact .inr ⟨fun n h => (by cases h), ⟨_, rfl⟩, World.Same.refl w, hw⟩
  | some id =>
    simp only
    cases hf : w.ledger.find? id with
    | none =>
      refine .inr ⟨fun n hid hn => ?_, ⟨_, rfl⟩, World.Same.refl w, hw⟩
      cases hid
      rw [Ledger.content_eq_none_iff.mpr hf] at hn
      cases hn
    | some stored =>
      have hcontent := Ledger.content_of_find? hf
      have hid : stored.id = id := Ledger.id_of_find? hf
      have hlent := heldBy_lend hw id
      simp only
      -- The record as it is leased and the record without a lease are treated alike.
      rcases Message.acceptedBy_withLease m role (stored.withLease none)
          (some (e.handle.leaseAt w.now)) w.now with ⟨err, hleased, hbare⟩ | ⟨hleased, hbare⟩
      · have herr : m.acceptedBy role (stored.withLease (some (e.handle.leaseAt w.now))) w.now
            = .error err := hleased
        rw [herr]
        refine .inr ⟨fun n hnid hn => ⟨err, ?_⟩, ⟨err, rfl⟩,
          World.same_lend_free w e.handle id, heldBy_free hlent id⟩
        cases hnid
        rw [hcontent] at hn
        cases hn
        exact hbare
      · have hok : m.acceptedBy role (stored.withLease (some (e.handle.leaseAt w.now))) w.now
            = .ok (m.outcome (stored.withLease (some (e.handle.leaseAt w.now))) w.now) := hleased
        rw [hok]
        subst hid
        refine .inl ⟨stored.withLease none, m.outcome (stored.withLease none) w.now, _, rfl,
          hcontent, hbare, rfl, Message.id_outcome m _ _, ?_, World.heldBy_commit hlent _ _⟩
        have hname : (m.outcome (stored.withLease (some (e.handle.leaseAt w.now))) w.now).id
            = stored.id := Message.id_outcome m _ _
        have hputs := World.puts_lend_commit w e.handle m.payload.target
          (m.outcome (stored.withLease (some (e.handle.leaseAt w.now))) w.now)
        rw [hname] at hputs
        exact hputs.congr (Message.outcome_withLease m (stored.withLease none) _ none w.now)

/-- How a message is received. -/
inductive Receipt (e : Engine) (w : World) (m : Message) (r : Handled) (w' : World) : Prop
  | refused (err : NegotiationError) (hr : r = .error err) (hm : m.payload.target ≠ .requested)
      (hno : ∀ role n, m.addressee? w.ledger = some role → m.processIdFor role = some n.id →
        w.ledger.content n.id = some n → ∃ err, m.acceptedBy role n w.now = .error err)
      (hw : w.Same w')
  | accepted (role : Role) (n found : Negotiation) (haddr : m.addressee? w.ledger = some role)
      (hpid : m.processIdFor role = some n.id) (hn : w.ledger.content n.id = some n)
      (hok : m.acceptedBy role n w.now = .ok (m.outcome n w.now)) (hr : r = .ok found)
      (hid : found.id = n.id) (hw : w.Puts w' (m.outcome n w.now))
  | known (offer : Offer) (callbackAddress consumerId : String) (n : Negotiation)
      (hm : m.payload = .contractRequest offer callbackAddress consumerId)
      (hn : knownRequest? m.consumerPid w.ledger = some n) (hr : r = .ok n) (hw : w' = w)
  | opened (offer : Offer) (callbackAddress consumerId : String)
      (hm : m.payload = .contractRequest offer callbackAddress consumerId)
      (hn : knownRequest? m.consumerPid w.ledger = none)
      (hr : r = .ok (m.opened offer callbackAddress consumerId w.nextId w.now))
      (hw : w.Bears w' (m.opened offer callbackAddress consumerId w.nextId w.now))

theorem receive_effect (hw : w.ledger.HeldBy e.handle.holder) (m : Message) :
    Receipt e w m (e.receive .direct m w).1 (e.receive .direct m w).2
      ∧ (e.receive .direct m w).2.ledger.HeldBy e.handle.holder := by
  -- Every message but a request is for a record that is known.
  have haddressed (hm : m.payload.target ≠ .requested) :
      Receipt e w m (e.addressed w m).1 (e.addressed w m).2
        ∧ (e.addressed w m).2.ledger.HeldBy e.handle.holder := by
    unfold addressed
    cases haddr : m.addressee? w.ledger with
    | none =>
      refine ⟨.refused _ rfl hm (fun role n h => ?_) (World.Same.refl w), hw⟩
      rw [haddr] at h
      cases h
    | some role =>
      rcases received_effect hw m role with
        ⟨n, n', r, hpid, hn, hok, hr, hid, hputs, hheld⟩ | ⟨hno, ⟨err, herr⟩, hsame, hheld⟩
      · obtain ⟨_, _, _, rfl⟩ := Message.acceptedBy_eq_ok_iff.mp hok
        exact ⟨.accepted role n r haddr hpid hn hok hr hid hputs, hheld⟩
      · refine ⟨.refused err herr hm (fun role' n h hpid hn => ?_) hsame, hheld⟩
        rw [haddr] at h
        cases h
        exact hno n hpid hn
  rw [receive_direct hw]
  cases hm : m.payload with
  | contractRequest offer callbackAddress consumerId =>
    simp only [requested]
    cases hk : knownRequest? m.consumerPid w.ledger with
    | some n => exact ⟨.known offer callbackAddress consumerId n hm hk rfl rfl, hw⟩
    | none =>
      refine ⟨.opened offer callbackAddress consumerId hm hk rfl ?_, ?_⟩
      · exact World.bears_commit w .requested rfl
      · exact World.heldBy_commit hw .requested _
  | negotiationEvent event =>
    refine haddressed ?_
    rw [hm]
    cases event <;> exact State.noConfusion
  | contractOffer offer | contractAgreement agreement | agreementVerification
  | termination reason policy =>
    refine haddressed ?_
    rw [hm]
    exact State.noConfusion

/-- A message that can be accepted is. -/
theorem Receipt.of_acceptable {m : Message} {r : Handled} {w' : World} {role : Role}
    {n : Negotiation} (h : Receipt e w m r w') (haddr : m.addressee? w.ledger = some role)
    (hpid : m.processIdFor role = some n.id) (hn : w.ledger.content n.id = some n)
    (hok : m.acceptedBy role n w.now = .ok (m.outcome n w.now)) :
    (∃ found, r = .ok found) ∧ w.Puts w' (m.outcome n w.now) := by
  -- A request is addressed to no record.
  have hplain {offer : Offer} {callbackAddress consumerId : String}
      (hm : m.payload = .contractRequest offer callbackAddress consumerId) : False := by
    rw [Message.addressee?_of_request hm] at haddr
    cases haddr
  cases h with
  | refused err hr hm hno hw =>
    obtain ⟨err, herr⟩ := hno role n haddr hpid hn
    rw [hok] at herr
    cases herr
  | accepted role' n' found haddr' hpid' hn' hok' hr hid hw =>
    cases haddr.symm.trans haddr'
    have hids : n.id = n'.id := Option.some.inj (hpid.symm.trans hpid')
    rw [hids] at hn
    cases hn.symm.trans hn'
    exact ⟨⟨found, hr⟩, hw⟩
  | known offer callbackAddress consumerId n hm hn hr hw => exact (hplain hm).elim
  | opened offer callbackAddress consumerId hm hn hr hw => exact (hplain hm).elim

/-! ## §2. The local application. -/

theorem initiate_effect (hw : w.ledger.HeldBy e.handle.holder) (r : ContractRequest) :
    w.Bears (e.initiate .direct r w).2 (r.opened w.nextId w.now)
      ∧ (e.initiate .direct r w).2.ledger.HeldBy e.handle.holder := by
  rw [initiate_direct hw]
  exact ⟨World.bears_commit w .initial rfl, World.heldBy_commit hw .initial _⟩

theorem terminate_effect (hw : w.ledger.HeldBy e.handle.holder) (id reason : String) :
    (w.Same (e.terminate .direct id reason w).2
        ∨ ∃ n, w.ledger.content id = some n ∧ n.checkEdge .terminating = .ok ()
          ∧ w.Puts (e.terminate .direct id reason w).2 (doomed n reason w.now))
      ∧ (e.terminate .direct id reason w).2.ledger.HeldBy e.handle.holder := by
  rw [terminate_direct (hw.not_shields id w.now)]
  cases hf : w.ledger.find? id with
  | none => exact ⟨.inl (World.Same.refl w), hw⟩
  | some stored =>
    have hlent := heldBy_lend hw id
    simp only
    cases hedge : stored.checkEdge .terminating with
    | error err =>
      exact ⟨.inl (World.same_lend_free w e.handle id), heldBy_free hlent id⟩
    | ok _ =>
      refine ⟨.inr ⟨stored.withLease none, Ledger.content_of_find? hf, hedge, ?_⟩,
        World.heldBy_commit hlent _ _⟩
      have hid : stored.id = id := Ledger.id_of_find? hf
      have hputs := World.puts_lend_commit w e.handle .terminating
        (doomed (stored.withLease (some (e.handle.leaseAt w.now))) reason w.now)
      subst hid
      exact hputs.congr rfl

/-! ## §3. Replies. -/

theorem toward_eq_some_iff {target : State} {moved : Except TransitionError Negotiation}
    {p : State × Negotiation} :
    toward target moved = some p ↔ ∃ m, moved = .ok m ∧ p = (target, m) := by
  cases moved with
  | error err => simp [toward]
  | ok m => simp [toward, eq_comm]

/-- What an answer adds to a record. -/
def gained (f : Flight) (n : Negotiation) (response : Json) : Negotiation :=
  match f.sending, f.message.payload with
  | .request, _ => correlate n response
  | .agreement, .contractAgreement agreement => { n with agreement := some agreement }
  | _, _ => n

/-- Whether an answer settles an agreement. -/
def settlesAgreement (f : Flight) : Bool :=
  decide (f.sending = .agreement) && f.message.payload.isAgreement

/-- What a reply makes of a record, if anything. -/
inductive Turn (e : Engine) (f : Flight) (n : Negotiation) (now : Instant) :
    Reply → State → Negotiation → Prop
  | onward (response : Json) (hedge : n.checkEdge f.sending.target = .ok ())
      (hset : settlesAgreement f = true → n.agreement = none) :
      Turn e f n now (.answered response) f.sending.target
        ((gained f n response).enter f.sending.target.code now)
  | ended (failure : DispatchFailure) (detail : String)
      (hedge : n.checkEdge .terminated = .ok ())
      (hlast : failure.isFatal = true ∨ e.retry.isExhausted n = true) :
      Turn e f n now (.failed failure) .terminated
        ((n.enter State.terminated.code now).withErrorDetail detail)
  | again (failure : DispatchFailure) (hedge : n.checkEdge f.sending.source = .ok ())
      (hkind : failure.isFatal = false) (hmore : e.retry.isExhausted n = false) :
      Turn e f n now (.failed failure) f.sending.source (n.enter f.sending.source.code now)

theorem correlate_checkEdge (n : Negotiation) (response : Json) (target : State) :
    (correlate n response).checkEdge target = n.checkEdge target := by
  unfold correlate
  split <;> rfl

/-- What an answer makes of a record that only moves on. -/
theorem onward_of_moveTo {f : Flight} {n m k : Negotiation} {now : Instant} {kind : State}
    (response : Json)
    (h : toward f.sending.target (m.moveTo f.sending.target now) = some (kind, k))
    (hgain : gained f n response = m)
    (hedge : m.checkEdge f.sending.target = n.checkEdge f.sending.target)
    (hset : settlesAgreement f = false) : Turn e f n now (.answered response) kind k := by
  obtain ⟨moved, hmove, heq⟩ := toward_eq_some_iff.mp h
  obtain ⟨hcheck, rfl⟩ := Negotiation.moveTo_eq_ok hmove
  cases heq
  rw [← hgain]
  refine .onward response (hedge.symm.trans hcheck) fun hsettles => ?_
  rw [hset] at hsettles
  cases hsettles

theorem turn_of_upshot {f : Flight} {n n' : Negotiation} {now : Instant} {reply : Reply}
    {kind : State} (h : e.upshot f n now reply = some (kind, n')) :
    Turn e f n now reply kind n' := by
  cases reply with
  | panicked => cases h
  | answered response =>
    obtain ⟨sending, leased, ⟨protocol, address, consumerPid, providerPid, payload⟩⟩ := f
    cases sending with
    | request => exact onward_of_moveTo response h rfl (correlate_checkEdge n response _) rfl
    | agreement =>
      cases payload with
      | contractAgreement agreement =>
        obtain ⟨moved, hmove, heq⟩ := toward_eq_some_iff.mp h
        obtain ⟨hset, hedge, rfl⟩ := Negotiation.agreeOn_eq_ok hmove
        cases heq
        exact .onward response hedge fun _ => hset
      | _ => exact onward_of_moveTo response h rfl rfl rfl
    | _ => exact onward_of_moveTo response h rfl rfl rfl
  | failed failure =>
    unfold upshot at h
    simp only at h
    -- A fatal failure and the last retry end a record alike.
    have ended {detail : String} (hlast : failure.isFatal = true ∨ e.retry.isExhausted n = true)
        (h : toward .terminated ((n.moveTo .terminated now).map (·.explained detail))
          = some (kind, n')) : Turn e f n now (.failed failure) kind n' := by
      obtain ⟨explained, hmap, heq⟩ := toward_eq_some_iff.mp h
      cases hmove : n.moveTo .terminated now with
      | error err =>
        rw [hmove] at hmap
        cases hmap
      | ok moved =>
        obtain ⟨hedge, rfl⟩ := Negotiation.moveTo_eq_ok hmove
        rw [hmove] at hmap
        cases hmap
        cases heq
        exact .ended failure detail hedge hlast
    by_cases hfatal : failure.isFatal = true
    · rw [if_pos hfatal] at h
      exact ended (.inl hfatal) h
    · rw [if_neg hfatal] at h
      by_cases hlast : e.retry.isExhausted n = true
      · rw [if_pos hlast] at h
        exact ended (.inr hlast) h
      · rw [if_neg hlast] at h
        obtain ⟨moved, hmove, heq⟩ := toward_eq_some_iff.mp h
        obtain ⟨hedge, rfl⟩ := Negotiation.moveTo_eq_ok hmove
        cases heq
        exact .again failure hedge (Bool.eq_false_iff.mpr hfatal) (Bool.eq_false_iff.mpr hlast)

/-- An answer moves a record on, if the graph has the edge and no other agreement is set. -/
theorem upshot_answered (e : Engine) {f : Flight} {n : Negotiation} (response : Json)
    (now : Instant) (hedge : n.checkEdge f.sending.target = .ok ())
    (hset : settlesAgreement f = true → n.agreement = none) :
    e.upshot f n now (.answered response)
      = some (f.sending.target, (gained f n response).enter f.sending.target.code now) := by
  obtain ⟨sending, leased, ⟨protocol, address, consumerPid, providerPid, payload⟩⟩ := f
  cases sending with
  | request =>
    have hmove : (correlate n response).moveTo .requested now
        = .ok ((correlate n response).enter State.requested.code now) :=
      moveTo_of_checkEdge ((correlate_checkEdge n response _).trans hedge) now
    show toward .requested ((correlate n response).moveTo .requested now) = _
    rw [hmove]
    rfl
  -- Only the answer to an agreement needs that none is set.
  | agreement =>
    have hmove : n.moveTo .agreed now = .ok (n.enter State.agreed.code now) :=
      moveTo_of_checkEdge hedge now
    cases payload with
    | contractAgreement agreement =>
      show toward .agreed (n.agreeOn agreement now) = _
      unfold Negotiation.agreeOn
      rw [hset rfl, hmove]
      rfl
    | _ =>
      show toward .agreed (n.moveTo .agreed now) = _
      rw [hmove]
      rfl
  | termination =>
    have hmove : n.moveTo .terminated now = .ok (n.enter State.terminated.code now) :=
      moveTo_of_checkEdge hedge now
    show toward .terminated (n.moveTo .terminated now) = _
    rw [hmove]
    rfl
  | acceptance | verification | offer | finalization =>
    have hmove := moveTo_of_checkEdge hedge now
    show toward _ (n.moveTo _ now) = _
    rw [hmove]
    rfl

theorem id_gained (f : Flight) (n : Negotiation) (response : Json) :
    (gained f n response).id = n.id := by
  unfold gained
  split
  · unfold correlate
    split <;> rfl
  · rfl
  · rfl

theorem counterPartyId_gained (f : Flight) (n : Negotiation) (response : Json) :
    (gained f n response).counterPartyId = n.counterPartyId := by
  unfold gained
  split
  · unfold correlate
    split <;> rfl
  · rfl
  · rfl

/-- Only the answer to an agreement sets one. -/
theorem agreement_gained_of_ne {f : Flight} (hf : f.sending ≠ .agreement) (n : Negotiation)
    (response : Json) : (gained f n response).agreement = n.agreement := by
  unfold gained
  split
  · unfold correlate
    split <;> rfl
  · rename_i hsending _
    exact (hf hsending).elim
  · rfl

theorem agreement_gained_of_payload {f : Flight} (hf : f.sending = .agreement)
    {agreement : Agreement} (hpayload : f.message.payload = .contractAgreement agreement)
    (n : Negotiation) (response : Json) :
    (gained f n response).agreement = some agreement := by
  unfold gained
  rw [hf, hpayload]

theorem errorDetail_gained (f : Flight) (n : Negotiation) (response : Json) :
    (gained f n response).errorDetail = n.errorDetail := by
  unfold gained
  split
  · unfold correlate
    split <;> rfl
  · rfl
  · rfl

/-- Only the answer to a request tells a name. -/
theorem correlationId_gained_of_ne {f : Flight} (hf : f.sending ≠ .request) (n : Negotiation)
    (response : Json) : (gained f n response).correlationId = n.correlationId := by
  unfold gained
  split
  · rename_i hsending
    exact (hf hsending).elim
  · rfl
  · rfl

theorem Turn.id {f : Flight} {n n' : Negotiation} {now : Instant} {reply : Reply}
    {kind : State} (h : Turn e f n now reply kind n') : n'.id = n.id := by
  cases h with
  | onward response hedge hset => exact id_gained f n response
  | ended failure detail hedge hlast => rfl
  | again failure hedge hkind hmore => rfl

/-- What a reply makes of a record follows an edge. -/
theorem Turn.moves {f : Flight} {n n' : Negotiation} {now : Instant} {reply : Reply}
    {kind : State} (h : Turn e f n now reply kind n') : n.Moves n' := by
  cases h with
  | onward response hedge hset => exact Negotiation.moves_of_checkEdge hedge rfl
  | ended failure detail hedge hlast => exact Negotiation.moves_of_checkEdge hedge rfl
  | again failure hedge hkind hmore => exact Negotiation.moves_of_checkEdge hedge rfl

theorem keeps_gained {f : Flight} {n : Negotiation} (response : Json)
    (hrole : f.sending = .request → n.role = .consumer)
    (hset : settlesAgreement f = true → n.agreement = none) :
    n.Keeps (gained f n response) := by
  obtain ⟨sending, leased, ⟨protocol, address, consumerPid, providerPid, payload⟩⟩ := f
  have hn := Negotiation.Keeps.refl n
  cases sending with
  | request =>
    show n.Keeps (correlate n response)
    unfold correlate
    split
    · exact hn.correlated (hrole rfl) _
    · exact hn
  | agreement =>
    cases payload with
    | contractAgreement agreement => exact hn.agreed (hset rfl) agreement
    | _ => exact hn
  | _ => exact hn

/-- What a reply makes of a record keeps it. -/
theorem Turn.keeps {f : Flight} {n n' : Negotiation} {now : Instant} {reply : Reply}
    {kind : State} (h : Turn e f n now reply kind n')
    (hrole : f.sending = .request → n.role = .consumer) : n.Keeps n' := by
  cases h with
  | onward response hedge hset => exact (keeps_gained response hrole hset).enter _ _
  | ended failure detail hedge hlast =>
    exact ((Negotiation.Keeps.refl n).enter _ _).withErrorDetail detail
  | again failure hedge hkind hmore => exact (Negotiation.Keeps.refl n).enter _ _

/-- An answer tells a record no name but the one that it carries. -/
theorem correlationId_gained {f : Flight} {n : Negotiation} {response : Json} {pid : String}
    (h : (gained f n response).correlationId = some pid) : n.correlationId = some pid
      ∨ f.sending = .request ∧ (response.get? "provider_pid").bind Json.text? = some pid := by
  obtain ⟨sending, leased, ⟨protocol, address, consumerPid, providerPid, payload⟩⟩ := f
  cases sending with
  | request =>
    have hcorrelate : (correlate n response).correlationId = some pid := h
    unfold correlate at hcorrelate
    split at hcorrelate
    · rename_i name hname
      cases hcorrelate
      exact .inr ⟨rfl, hname⟩
    · exact .inl hcorrelate
  | agreement => cases payload <;> exact .inl h
  | _ => exact .inl h

/-- What is made of a record, without the lease. -/
def bare (p : State × Negotiation) : State × Negotiation :=
  (p.1, p.2.withLease none)

theorem bare_moveTo (n : Negotiation) (lease : Option Lease) (target : State) (now : Instant) :
    (toward target ((n.withLease lease).moveTo target now)).map bare
      = (toward target (n.moveTo target now)).map bare := by
  have hedge : (n.withLease lease).checkEdge target = n.checkEdge target := rfl
  unfold Negotiation.moveTo
  rw [hedge]
  cases n.checkEdge target <;> rfl

theorem bare_explained (n : Negotiation) (lease : Option Lease) (detail : String)
    (now : Instant) :
    (toward .terminated
        (((n.withLease lease).moveTo .terminated now).map (·.explained detail))).map bare
      = (toward .terminated ((n.moveTo .terminated now).map (·.explained detail))).map bare := by
  have hedge : (n.withLease lease).checkEdge .terminated = n.checkEdge .terminated := rfl
  unfold Negotiation.moveTo
  rw [hedge]
  cases n.checkEdge .terminated <;> rfl

theorem bare_agreeOn (n : Negotiation) (lease : Option Lease) (agreement : Agreement)
    (now : Instant) :
    (toward .agreed ((n.withLease lease).agreeOn agreement now)).map bare
      = (toward .agreed (n.agreeOn agreement now)).map bare := by
  have hset : (n.withLease lease).agreement = n.agreement := rfl
  have hedge : (n.withLease lease).checkEdge .agreed = n.checkEdge .agreed := rfl
  unfold Negotiation.agreeOn Negotiation.moveTo
  rw [hset, hedge]
  cases n.agreement <;> cases n.checkEdge .agreed <;> rfl

theorem correlate_withLease (n : Negotiation) (lease : Option Lease) (response : Json) :
    correlate (n.withLease lease) response = (correlate n response).withLease lease := by
  unfold correlate
  split <;> rfl

/-- What a reply makes of a record does not depend on the lease. -/
theorem bare_upshot (e : Engine) (f : Flight) (n : Negotiation) (lease : Option Lease)
    (now : Instant) (reply : Reply) :
    (e.upshot f (n.withLease lease) now reply).map bare
      = (e.upshot f n now reply).map bare := by
  cases reply with
  | panicked => rfl
  | answered response =>
    obtain ⟨sending, leased, ⟨protocol, address, consumerPid, providerPid, payload⟩⟩ := f
    cases sending with
    | request =>
      show (toward .requested ((correlate (n.withLease lease) response).moveTo _ _)).map _ = _
      rw [correlate_withLease, bare_moveTo]
      rfl
    | agreement =>
      cases payload with
      | contractAgreement agreement => exact bare_agreeOn n lease agreement now
      | _ => exact bare_moveTo n lease _ now
    | _ => exact bare_moveTo n lease _ now
  | failed failure =>
    -- Retries are counted in the record, whoever holds it.
    have hlast : e.retry.isExhausted (n.withLease lease) = e.retry.isExhausted n := rfl
    unfold upshot
    simp only
    rw [hlast]
    by_cases hfatal : failure.isFatal = true
    · rw [if_pos hfatal, if_pos hfatal]
      exact bare_explained n lease _ now
    · rw [if_neg hfatal, if_neg hfatal]
      by_cases hexhausted : e.retry.isExhausted n = true
      · rw [if_pos hexhausted, if_pos hexhausted]
        exact bare_explained n lease _ now
      · rw [if_neg hexhausted, if_neg hexhausted]
        exact bare_moveTo n lease _ now

/-- What becomes of the records when a reply is dealt with: nothing if the record is gone or the
reply makes nothing of it; otherwise what the reply makes of the record is written. -/
inductive Landing (e : Engine) (w : World) (f : Flight) (reply : Reply) (counts : Bool)
    (w' : World) : Prop
  | gone (hn : w.ledger.content f.leased.id = none) (hw : w' = w)
  | idle (n : Negotiation) (hn : w.ledger.content f.leased.id = some n)
      (hup : e.upshot f n w.now reply = none) (hcounts : counts = false) (hw : w.Same w')
  | turned (n n' : Negotiation) (kind : State) (hn : w.ledger.content f.leased.id = some n)
      (hup : e.upshot f n w.now reply = some (kind, n')) (hcounts : counts = true)
      (hw : w.Puts w' n')

theorem land_effect (hw : w.ledger.HeldBy e.handle.holder) (role : Role) (f : Flight)
    (reply : Reply) :
    Landing e w f reply (e.land .direct role f reply w).1 (e.land .direct role f reply w).2
      ∧ (e.land .direct role f reply w).2.ledger.HeldBy e.handle.holder := by
  rw [land_direct hw, landed]
  cases hf : w.ledger.find? f.leased.id with
  | none => exact ⟨.gone (Ledger.content_eq_none_iff.mpr hf) rfl, hw⟩
  | some stored =>
    have hcontent := Ledger.content_of_find? hf
    -- The reply is judged by the record with its lease.
    have hbare := bare_upshot e f stored none w.now reply
    simp only
    cases hup : e.upshot f stored w.now reply with
    | none =>
      rw [hup, Option.map_none, Option.map_eq_none_iff] at hbare
      exact ⟨.idle _ hcontent hbare rfl (World.same_free w _), heldBy_free hw _⟩
    | some p =>
      rw [hup, Option.map_some, Option.map_eq_some_iff] at hbare
      obtain ⟨⟨kind, n'⟩, hup', heq⟩ := hbare
      have hkind : kind = p.1 := congrArg (·.1) heq
      have hrecord : p.2.withLease none = n'.withLease none := (congrArg (·.2) heq).symm
      rw [hkind] at hup'
      exact ⟨.turned _ n' p.1 hcontent hup' rfl ((World.puts_commit w p.1 p.2).congr hrecord),
        World.heldBy_commit hw p.1 p.2⟩

/-- An answer that can move a stored record on does. -/
theorem Landing.answered {f : Flight} {response : Json} {counts : Bool} {w' : World}
    {n : Negotiation} (h : Landing e w f (.answered response) counts w')
    (hn : w.ledger.content f.leased.id = some n)
    (hedge : n.checkEdge f.sending.target = .ok ())
    (hset : settlesAgreement f = true → n.agreement = none) :
    w.Puts w' ((gained f n response).enter f.sending.target.code w.now) := by
  have hmoves := e.upshot_answered response w.now hedge hset
  cases h with
  | gone hgone hw =>
    rw [hn] at hgone
    cases hgone
  | idle current hcurrent hup hcounts hw =>
    cases hn.symm.trans hcurrent
    cases hup.symm.trans hmoves
  | turned current n' kind hcurrent hup hcounts hw =>
    cases hn.symm.trans hcurrent
    cases hup.symm.trans hmoves
    exact hw

/-! ## §4. Duties. -/

/-- A message about an offer can be made if there is an offer. -/
theorem payloadFor_of_offers (e : Engine) (message : Sending) {n : Negotiation}
    (hn : n.offers ≠ []) (now : Instant) : ∃ payload, e.payloadFor message n now = .ok payload := by
  have hlast : n.lastOffer? = some (n.offers.getLast hn) :=
    List.getLast?_eq_some_getLast hn
  unfold payloadFor
  rw [hlast]
  cases message <;> exact ⟨_, rfl⟩

/-- What a message about a record says. -/
inductive Composes (e : Engine) (n : Negotiation) (now : Instant) : Sending → Payload → Prop
  | request (offer : Offer) (hlast : n.lastOffer? = some offer) :
      Composes e n now .request (.contractRequest offer e.callbackAddress e.participantId)
  | offer (offer : Offer) (hlast : n.lastOffer? = some offer) :
      Composes e n now .offer (.contractOffer offer)
  | agreement (offer : Offer) (hlast : n.lastOffer? = some offer) :
      Composes e n now .agreement (.contractAgreement (e.agreementOn n offer now))
  | acceptance : Composes e n now .acceptance (.negotiationEvent .accepted)
  | verification : Composes e n now .verification .agreementVerification
  | finalization : Composes e n now .finalization (.negotiationEvent .finalized)
  | termination : Composes e n now .termination
      (.termination n.errorDetail (n.lastOffer?.map (·.policy)))

theorem composes_of_payloadFor {message : Sending} {n : Negotiation} {now : Instant}
    {payload : Payload} (h : e.payloadFor message n now = .ok payload) :
    Composes e n now message payload := by
  unfold payloadFor at h
  cases message with
  | acceptance => cases h; exact .acceptance
  | verification => cases h; exact .verification
  | finalization => cases h; exact .finalization
  | termination => cases h; exact .termination
  | request | offer | agreement =>
    cases hlast : n.lastOffer? with
    | none => simp [hlast] at h
    | some offer =>
      simp only [hlast, Except.ok.injEq] at h
      subst h
      constructor
      exact hlast

/-- The state that a message leads the receiver to is the one that its answer leads the sender
to. -/
theorem target_of_payloadFor {message : Sending} {n : Negotiation} {now : Instant}
    {payload : Payload} (h : e.payloadFor message n now = .ok payload) :
    payload.target = message.target := by
  cases composes_of_payloadFor h <;> rfl

/-- How far the handling of a record with an offer gets without a reply. -/
inductive Beginning (e : Engine) (w : World) (duty : Duty) (n : Negotiation) (b : Begun)
    (w' : World) : Prop
  | parked (hguard : e.guard n = true) (hb : b = .done false) (hw : w.Puts w' (n.withPending true))
  | decided (source target : State) (hduty : duty = .decide source target)
      (hedge : n.checkEdge target = .ok ()) (hb : b = .done true)
      (hw : w.Puts w' (n.enter target.code w.now))
  | undecided (source target : State) (hduty : duty = .decide source target)
      (hedge : n.checkEdge target ≠ .ok ()) (hb : b = .done false) (hw : w.Same w')
  | delayed (message : Sending) (hduty : duty = .send message)
      (hdelay : e.retry.shouldDelay n w.now = true) (hb : b = .done false) (hw : w.Same w')
  | sending (message : Sending) (payload : Payload) (hduty : duty = .send message)
      (hguard : e.guard n = false) (hpayload : e.payloadFor message n w.now = .ok payload)
      (hb : b = .sending ⟨message, n, .forNegotiation n payload⟩) (hw : w' = w)

theorem begin_effect (hw : w.ledger.HeldBy e.handle.holder) (role : Role) (duty : Duty)
    {n : Negotiation} (hn : n.offers ≠ []) :
    Beginning e w duty n (e.begin .direct role duty n w).1 (e.begin .direct role duty n w).2
      ∧ (e.begin .direct role duty n w).2.ledger.HeldBy e.handle.holder := by
  rw [begin_direct hw]
  cases hguard : e.guard n with
  | true =>
    rw [if_pos rfl]
    exact ⟨.parked hguard rfl (World.puts_park w (n.withPending true)), hw.put _⟩
  | false =>
    rw [if_neg Bool.false_ne_true]
    unfold undertaken
    cases duty with
    | decide source target =>
      simp only [decided]
      cases hmove : n.moveTo target w.now with
      | error err =>
        refine ⟨.undecided source target rfl (fun hedge => ?_) rfl (World.same_free w n.id),
          heldBy_free hw n.id⟩
        rw [moveTo_of_checkEdge hedge] at hmove
        cases hmove
      | ok m =>
        obtain ⟨hedge, rfl⟩ := Negotiation.moveTo_eq_ok hmove
        exact ⟨.decided source target rfl hedge rfl (World.puts_commit w target _),
          World.heldBy_commit hw target _⟩
    | send message =>
      -- The record has an offer, so the message can be made.
      obtain ⟨payload, hpayload⟩ := payloadFor_of_offers e message hn w.now
      simp only [hpayload]
      cases hdelay : e.retry.shouldDelay n w.now with
      | true =>
        exact ⟨.delayed message rfl hdelay rfl (World.same_free w n.id), heldBy_free hw n.id⟩
      | false => exact ⟨.sending message payload rfl hguard hpayload rfl rfl, hw⟩

/-- The batch for a duty, and the world in which it is leased. -/
theorem lease_direct (hk : w.ledger.IsKnown) (role : Role) (duty : Duty) :
    (e.job role duty).lease .direct w
      = (w.ledger.dutyBatch e.handle w.now e.batchSize role duty.state,
          w.withLedger (w.ledger.leaseEach
            ((w.ledger.dutyBatch e.handle w.now e.batchSize role duty.state).map (·.id))
            (e.handle.leaseAt w.now))) := by
  have hasked : Access.direct.nextNotLeased e.handle e.batchSize
      (Query.dutyCriteria role duty.state) w
      = (.ok (w.ledger.dutyBatch e.handle w.now e.batchSize role duty.state),
          w.withLedger (w.ledger.leaseEach
            ((w.ledger.dutyBatch e.handle w.now e.batchSize role duty.state).map (·.id))
            (e.handle.leaseAt w.now))) := by
    unfold Access.nextNotLeased
    rw [Query.validate_dutyCriteria]
    simp only
    rw [Access.direct_attempt, Ledger.nextNotLeased_dutyCriteria hk]
  show (Access.direct.nextNotLeased e.handle e.batchSize (Query.dutyCriteria role duty.state)
    >>= _) w = _
  rw [run_bind, hasked]
  rfl

end Engine

end Parley
