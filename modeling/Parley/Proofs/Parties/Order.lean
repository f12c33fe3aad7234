/-
  Parley.Proofs.Parties.Order
  ────────────────────────────────
  **MESSAGES IN ORDER.**

  Two engines hold nothing back, and every message is delivered and its reply
  comes back.  Then the duty of a due record is always done (`Change`):

      a decision    moves the record                       `Exchange.decides`
      a request     also opens one for the other party     `requests_in_order`
      a message     also moves the other party's record    `moves_both`

  if the records are in the states that the duty expects, and if nothing went
  wrong with them before, nothing has gone wrong with them after.
-/
import Parley.Proofs.Parties.Stage

namespace Parley

/-- Two engines that can lease work and hold nothing back. -/
structure Party.AreWilling (parties : Party → Engine) : Prop where
  batchSize : ∀ q, 0 < (parties q).batchSize
  guard : ∀ q n, (parties q).guard n = false

namespace Meeting

/-- No message and no acknowledgement is lost. -/
def loopback (turn : Nat → Nat) : Luck where
  fate _ := .returned
  turn := turn

variable {parties : Party → Engine} {turn : Nat → Nat} {m m' : Meeting} {q : Party} {n : Negotiation}

/-! ## §1. Changes. -/

/-- A party's record is written, and maybe a record of the other party; no lease is left on either,
and a message that was sent has been answered. -/
structure Change (m m' : Meeting) (q : Party) (n' : Negotiation) (k' : Option Negotiation) :
    Prop where
  own : ∀ id, (m'.ledger q).content id
    = if n'.id = id then some n' else (m.ledger q).content id
  peer : ∀ k, k' = some k → (m'.ledger q.other).content k.id = some k
  rest : ∀ id, (∀ k, k' = some k → k.id ≠ id) →
    (m'.ledger q.other).content id = (m.ledger q.other).content id
  leases : ∀ id, (m'.ledger q).IsLeased id → (m.ledger q).IsLeased id ∧ n'.id ≠ id
  peerLeases : ∀ id, (m'.ledger q.other).IsLeased id → (m.ledger q.other).IsLeased id
  replies : ∀ reply ∈ m'.replies, reply ∈ m.replies ∨ ∃ response, reply = .answered response
  wishes : m'.wishes = m.wishes

/-- A decision is taken. -/
theorem Exchange.decides {luck : Luck} {source target : State}
    (h : Exchange parties luck q (.decide source target) n m m')
    (hguard : (parties q).guard n = false) (hedge : n.checkEdge target = .ok ()) :
    m.Change m' q ((n.enter target.code m.now).withLease none) none := by
  cases h with
  | sent message payload reply mid w counts hduty hguard hpayload hd hl hheld hm => cases hduty
  | alone handled w hb hheld hm =>
    cases hb with
    | parked hheld hb hw =>
      rw [hguard] at hheld
      cases hheld
    | undecided source target hduty hno hb hw =>
      cases hduty
      exact absurd hedge hno
    | delayed message hduty hdelay hb hw => cases hduty
    | sending message payload hduty hguard hpayload hb hw => cases hduty
    | decided source target hduty _ hb hw =>
      cases hduty
      subst hm
      refine ⟨fun id => ?_, fun k hk => (by cases hk), fun id _ => ?_, fun id hl => ?_,
        fun id hl => ?_, fun reply hr => .inl ?_, wishes_setWorld m q w⟩
      · rw [ledger_setWorld_self]
        exact hw.content id
      · rw [ledger_setWorld_other]
      · rw [ledger_setWorld_self] at hl
        exact hw.leases id hl
      · rw [ledger_setWorld_other] at hl
        exact hl
      · rw [replies_setWorld] at hr
        exact hr

/-- A message is sent, delivered, and its reply comes back. -/
theorem Exchange.sends {message : Sending} (h : Exchange parties (loopback turn) q (.send message) n m m')
    (hguard : (parties q).guard n = false) (hfirst : n.stateCount = 0) :
    ∃ payload r w w' counts, (parties q).payloadFor message n m.now = .ok payload
      ∧ Engine.Receipt (parties q.other) (m.world q.other) (.forNegotiation n payload) r w
      ∧ Engine.Landing (parties q) ((m.setWorld q.other w).world q)
          ⟨message, n, .forNegotiation n payload⟩ (replyFor (.forNegotiation n payload) r) counts w'
      ∧ m' = ((m.setWorld q.other w).logged
          (replyFor (.forNegotiation n payload) r)).setWorld q w' := by
  cases h with
  | alone handled w hb hheld hm =>
    cases hb with
    | parked hheld hb hw =>
      rw [hguard] at hheld
      cases hheld
    | decided source target hduty hedge hb hw => cases hduty
    | undecided source target hduty hedge hb hw => cases hduty
    | delayed message hduty hdelay hb hw =>
      -- The record is in its state for the first time.
      unfold Retry.RetryPolicy.shouldDelay at hdelay
      rw [if_pos hfirst] at hdelay
      cases hdelay
    | sending message payload hduty hguard hpayload hb hw => cases hb
  | sent message payload reply mid w counts hduty hguard hpayload hd hl hheld hm =>
    cases hduty
    have hfate : (loopback turn).fate m.sent = .returned := rfl
    rw [hfate] at hd
    cases hd with
    | returned _ r w' hr hheld' hfate => exact ⟨payload, r, w', w, counts, hpayload, hr, hl, hm⟩

/-- A message was accepted, its answer came back, and the sender's record was written. -/
theorem Change.of_answered {w w' : World} {k n' : Negotiation} {reply : Reply}
    (hpeer : ∀ id, w.ledger.content id
      = if k.id = id then some (k.withLease none) else (m.ledger q.other).content id)
    (hleases : ∀ id, w.ledger.IsLeased id → (m.ledger q.other).IsLeased id)
    (hown : ((m.setWorld q.other w).world q).Puts w' n')
    (hreply : ∃ response, reply = .answered response) :
    m.Change (((m.setWorld q.other w).logged reply).setWorld q w') q (n'.withLease none)
      (some (k.withLease none)) where
  own id := by
    rw [ledger_setWorld_self, hown.content, ledger_world, ledger_setWorld_other_self]
    rfl
  peer known hk := by
    cases hk
    rw [ledger_setWorld_other, ledger_logged, ledger_setWorld_self, hpeer]
    exact if_pos rfl
  rest id hne := by
    have hid : k.id ≠ id := hne (k.withLease none) rfl
    rw [ledger_setWorld_other, ledger_logged, ledger_setWorld_self, hpeer, if_neg hid]
  leases id hl := by
    rw [ledger_setWorld_self] at hl
    obtain ⟨hbefore, hid⟩ := hown.leases id hl
    rw [ledger_world, ledger_setWorld_other_self] at hbefore
    exact ⟨hbefore, hid⟩
  peerLeases id hl := by
    rw [ledger_setWorld_other, ledger_logged, ledger_setWorld_self] at hl
    exact hleases id hl
  replies answer hin := by
    rw [replies_setWorld] at hin
    have hin' : answer ∈ (m.setWorld q.other w).replies ++ [reply] := hin
    rw [replies_setWorld] at hin'
    rcases List.mem_append.mp hin' with hbefore | hnow
    · exact .inl hbefore
    · rw [List.mem_singleton.mp hnow]
      exact .inr hreply
  wishes := by
    rw [wishes_setWorld]
    exact wishes_setWorld m q.other w

/-! ## §2. Messages in order. -/

/-- A message other than a request and a termination is for the counter party's role. -/
theorem addressee_of_payloadFor {message : Sending} {payload : Payload} {now : Instant}
    (hduty : Duty.send message ∈ q.role.duties) (hfirst : message ≠ .request)
    (hlast : message ≠ .termination)
    (hpayload : (parties q).payloadFor message n now = .ok payload) (l : Ledger) :
    (Message.forNegotiation n payload).addressee? l = some q.other.role := by
  cases q with
  | first =>
    cases message with
    | request => exact absurd rfl hfirst
    | termination => exact absurd rfl hlast
    | offer | agreement | finalization => exact absurd hduty (by decide)
    | acceptance | verification =>
      cases hpayload
      rfl
  | second =>
    cases message with
    | request => exact absurd rfl hfirst
    | termination => exact absurd rfl hlast
    | acceptance | verification => exact absurd hduty (by decide)
    | finalization =>
      cases hpayload
      rfl
    -- These two are made of the last offer.
    | offer | agreement =>
      unfold Engine.payloadFor at hpayload
      cases hoffer : n.lastOffer? with
      | none => simp [hoffer] at hpayload
      | some offer =>
        simp only [hoffer, Except.ok.injEq] at hpayload
        rw [← hpayload]
        rfl

/-- A message that both records are ready for moves both. -/
theorem Corresponds.sends_in_order (h : m.Corresponds parties)
    (hn : (m.ledger q).content n.id = some (n.withLease none)) {message : Sending}
    (hduty : Duty.send message ∈ q.role.duties) (hfirst : message ≠ .request)
    (hlast : message ≠ .termination)
    (hexchange : Exchange parties (loopback turn) q (.send message) n m m')
    (hguard : (parties q).guard n = false) (hcount : n.stateCount = 0) {k : Negotiation}
    (hname : n.correlationId = some k.id) (hk : (m.ledger q.other).content k.id = some k)
    (hedge : n.checkEdge message.target = .ok ()) (hset : message = .agreement → n.agreement = none)
    (hedge' : k.checkEdge message.target = .ok ())
    (hset' : message = .agreement → k.agreement = none) :
    ∃ payload response, (parties q).payloadFor message n m.now = .ok payload
      ∧ m.Change m' q
        (((Engine.gained ⟨message, n, .forNegotiation n payload⟩ (n.withLease none) response).enter
          message.target.code m.now).withLease none)
        (some (((Message.forNegotiation n payload).outcome k m.now).withLease none)) := by
  obtain ⟨payload, r, w, w', counts, hpayload, hr, hl, hm⟩ := hexchange.sends hguard hcount
  obtain ⟨hsound, hrole⟩ := h.stored hn
  have htarget := Engine.target_of_payloadFor hpayload
  -- Only the message of an agreement brings one.
  have hagreement : payload.isAgreement = true → message = .agreement := by
    intro hp
    cases hpp : payload with
    | contractAgreement agreement =>
      rw [hpp] at htarget
      cases message <;> first | rfl | cases htarget
    | _ =>
      rw [hpp] at hp
      cases hp
  -- The other party accepts the message.
  have hpid : (Message.forNegotiation n payload).processIdFor q.other.role = some k.id := by
    rw [processIdFor_forNegotiation hrole hsound, hname]
  have hok : (Message.forNegotiation n payload).acceptedBy q.other.role k m.now
      = .ok ((Message.forNegotiation n payload).outcome k m.now) := by
    refine Message.acceptedBy_eq_ok_iff.mpr ⟨h.role q.other k.id k hk, ?_, ?_, rfl⟩
    · show k.checkEdge payload.target = .ok ()
      rw [htarget]
      exact hedge'
    · exact fun hp => hset' (hagreement hp)
  obtain ⟨⟨found, hfound⟩, hputs⟩ := hr.of_acceptable
    (addressee_of_payloadFor hduty hfirst hlast hpayload _) hpid hk hok
  subst hfound
  -- The answer moves the sender's record.
  have hstored : ((m.setWorld q.other w).world q).ledger.content n.id
      = some (n.withLease none) := by
    rw [ledger_world, ledger_setWorld_other_self]
    exact hn
  have hown := hl.answered hstored hedge fun hsettles => hset (hagreement (by
    simp only [Engine.settlesAgreement, Bool.and_eq_true] at hsettles
    exact hsettles.2))
  have hnow : ((m.setWorld q.other w).world q).now = m.now := by
    rw [now_world, now_setWorld]
    exact hputs.now
  rw [hnow] at hown
  refine ⟨payload, payload.acknowledgement found, hpayload, ?_⟩
  rw [hm]
  exact .of_answered hputs.content (fun id hl => (hputs.leases id hl).1) hown ⟨_, rfl⟩

/-- A request for a record that nobody knows yet opens one. -/
theorem Corresponds.requests_in_order (h : m.Corresponds parties)
    (hn : (m.ledger .first).content n.id = some (n.withLease none))
    (hexchange : Exchange parties (loopback turn) .first (.send .request) n m m')
    (hguard : (parties .first).guard n = false) (hcount : n.stateCount = 0)
    (hedge : n.checkEdge .requested = .ok ())
    (hnew : ∀ pid, (m.ledger .second).nameFor pid ≠ some n.id) :
    ∃ offer, n.lastOffer? = some offer
      ∧ m.Change m' .first
        (({ n.withLease none with correlationId := some (m.world .second).nextId }.enter
          State.requested.code m.now).withLease none)
        (some (((Message.forNegotiation n (.contractRequest offer (parties .first).callbackAddress
          (parties .first).participantId)).opened offer (parties .first).callbackAddress
          (parties .first).participantId (m.world .second).nextId m.now).withLease none)) := by
  obtain ⟨payload, r, w, w', counts, hpayload, hr, hl, hm⟩ := hexchange.sends hguard hcount
  obtain ⟨hsound, hrole⟩ := h.stored hn
  have hconsumer : n.role = .consumer := hrole
  obtain ⟨offer, hoffer⟩ := hsound.lastOffer?
  simp only [Engine.payloadFor, hoffer, Except.ok.injEq] at hpayload
  subst hpayload
  refine ⟨offer, hoffer, ?_⟩
  have hname : (Message.forNegotiation n (.contractRequest offer (parties .first).callbackAddress
      (parties .first).participantId)).consumerPid = n.id := by
    simp [Message.forNegotiation, hconsumer]
  cases hr with
  | refused err hr hplain hno hw => exact absurd rfl hplain
  | accepted role k found haddr hpid hk hok hr hid hw => cases haddr
  -- A record that names this one would be known.
  | known offer' callbackAddress consumerId k hm hk hr hw =>
    obtain ⟨hcontent, hcorrelated⟩ := Ledger.knownRequest?_eq_some hk
    rw [hname] at hcorrelated
    exact absurd ((Ledger.nameFor_of_content hcontent).trans hcorrelated) (hnew k.id)
  | opened offer' callbackAddress consumerId hm' hunknown hr hbears =>
    cases hm'
    subst hr
    have hstored : ((m.setWorld .second w).world .first).ledger.content n.id
        = some (n.withLease none) := hn
    have hown := hl.answered hstored hedge fun hsettles => (Bool.false_ne_true hsettles).elim
    have hnow : ((m.setWorld Party.first.other w).world .first).now = m.now := hbears.now
    rw [hnow] at hown
    rw [hm]
    exact .of_answered hbears.content hbears.leases hown ⟨_, rfl⟩

end Meeting

/-! ## §3. Records that move on. -/

/-- The agreement that two records hold after a message. -/
def Engine.agreementAfter (e : Engine) (message : Sending) (n : Negotiation) (offer : Offer)
    (now : Instant) (agreement : Option Agreement) : Option Agreement :=
  match message with
  | .agreement => some (e.agreementOn n offer now)
  | _ => agreement

namespace Negotiation.IsOnTrack

variable {e : Engine} {message : Sending} {n k : Negotiation} {payload : Payload} {s : State}
  {offer : Offer} {name : Option String} {agreement : Option Agreement} {now : Instant}

/-- A message in order moves the receiver's record on. -/
theorem outcome (hk : k.IsOnTrack s offer name agreement) (hs : s ≠ message.target)
    (hname : name ≠ none) (hoffer : n.lastOffer? = some offer) (hlast : message ≠ .termination)
    (hpayload : e.payloadFor message n now = .ok payload) :
    ((Message.forNegotiation n payload).outcome k now).IsOnTrack message.target offer name
      (e.agreementAfter message n offer now agreement) := by
  have hfree : (k.withPending false).IsOnTrack s offer name agreement :=
    ⟨hk.state, hk.stateCount, rfl, hk.offers, hk.correlationId, hk.agreement⟩
  have hmoved := hfree.enter hs now
  cases message with
  | termination => exact absurd rfl hlast
  -- These messages bring nothing along.
  | acceptance | verification | finalization =>
    cases hpayload
    exact hmoved
  | request =>
    simp only [Engine.payloadFor, hoffer, Except.ok.injEq] at hpayload
    subst hpayload
    exact hmoved
  | agreement =>
    simp only [Engine.payloadFor, hoffer, Except.ok.injEq] at hpayload
    subst hpayload
    exact ⟨hmoved.state, hmoved.stateCount, hmoved.pending, hmoved.offers, hmoved.correlationId,
      rfl⟩
  | offer =>
    simp only [Engine.payloadFor, hoffer, Except.ok.injEq] at hpayload
    subst hpayload
    refine ⟨hmoved.state, hmoved.stateCount, hmoved.pending, fun o ho => ?_, ?_, hmoved.agreement⟩
    · have ho' : o ∈ k.offers ++ [offer] := ho
      rcases List.mem_append.mp ho' with hbefore | hnow
      · exact hk.offers o hbefore
      · exact List.mem_singleton.mp hnow
    · -- The name is known already.
      obtain ⟨pid, hpid⟩ := Option.ne_none_iff_exists'.mp hname
      show k.correlationId.or (Message.forNegotiation n (.contractOffer offer)).providerPid = name
      rw [hk.correlationId, hpid]
      rfl

/-- Its answer moves the sender's record on. -/
theorem gained (hn : n.IsOnTrack s offer name agreement) (hs : s ≠ message.target)
    (hfirst : message ≠ .request) (hoffer : n.lastOffer? = some offer)
    (hpayload : e.payloadFor message n now = .ok payload) (response : Json) :
    ((Engine.gained ⟨message, n, .forNegotiation n payload⟩ (n.withLease none) response).enter
      message.target.code now).IsOnTrack message.target offer name
      (e.agreementAfter message n offer now agreement) := by
  have hmoved := (hn.withLease none).enter hs now
  cases message with
  | request => exact absurd rfl hfirst
  | acceptance | verification | finalization | offer | termination => exact hmoved
  | agreement =>
    simp only [Engine.payloadFor, hoffer, Except.ok.injEq] at hpayload
    subst hpayload
    exact ⟨hmoved.state, hmoved.stateCount, hmoved.pending, hmoved.offers, hmoved.correlationId,
      rfl⟩

end Negotiation.IsOnTrack

namespace Meeting

variable {parties : Party → Engine} {m m' : Meeting} {q : Party} {n k : Negotiation}
  {offer : Offer} {id : String}

/-- A message, but for the first and the end of a negotiation, moves two records on track on. -/
theorem Corresponds.moves_both (h : m.Corresponds parties) (hwilling : Party.AreWilling parties)
    {message : Sending} (hduty : Duty.send message ∈ q.role.duties) (hfirst : message ≠ .request)
    (hlast : message ≠ .termination) (hdue : m.IsDue q q.role (.send message) n)
    (hexchange : Exchange parties (loopback turn) q (.send message) n m m') {t u : State}
    {a : Option Agreement} (hset : a.isSome = message.source.hasAgreement)
    (hn : n.IsOnTrack t offer (some k.id) a)
    (hk : (m.ledger q.other).content k.id = some k) (hpeer : k.IsOnTrack u offer (some n.id) a)
    (ht : t.canMoveTo message.target = true ∧ t ≠ message.target)
    (hu : u.canMoveTo message.target = true ∧ u ≠ message.target) :
    ∃ n' k', m.Change m' q n' (some k') ∧ n'.id = n.id ∧ k'.id = k.id
      ∧ n'.counterPartyId = n.counterPartyId ∧ k'.counterPartyId = k.counterPartyId
      ∧ n'.IsOnTrack message.target offer (some k.id)
        ((parties q).agreementAfter message n offer m.now a)
      ∧ k'.IsOnTrack message.target offer (some n.id)
        ((parties q).agreementAfter message n offer m.now a) := by
  have hoffer := hn.lastOffer? (h.stored hdue.stored).1.offered
  -- Before the message of an agreement there is none.
  have hnone (hmessage : message = .agreement) : a = none := by
    rw [hmessage] at hset
    exact Option.not_isSome_iff_eq_none.mp (by rw [hset]; decide)
  have hedge : n.checkEdge message.target = .ok () :=
    Negotiation.checkEdge_eq_ok_iff.mpr ⟨t, hn.state, ht.1⟩
  have hedge' : k.checkEdge message.target = .ok () :=
    Negotiation.checkEdge_eq_ok_iff.mpr ⟨u, hpeer.state, hu.1⟩
  obtain ⟨payload, response, hpayload, hchange⟩ := h.sends_in_order hdue.stored hduty hfirst hlast
    hexchange (hwilling.guard q n) hn.stateCount hn.correlationId hk hedge
    (fun hm => hn.agreement.trans (hnone hm)) hedge' (fun hm => hpeer.agreement.trans (hnone hm))
  refine ⟨_, _, hchange, ?_, ?_, ?_, ?_, ?_, ?_⟩
  · exact Engine.id_gained _ _ response
  · exact Message.id_outcome _ k m.now
  · exact Engine.counterPartyId_gained _ _ response
  · exact Message.counterPartyId_outcome _ k m.now
  · exact (hn.gained ht.2 hfirst hoffer hpayload response).withLease none
  · exact (hpeer.outcome hu.2 (Option.some_ne_none _) hoffer hlast hpayload).withLease none

end Meeting

end Parley
